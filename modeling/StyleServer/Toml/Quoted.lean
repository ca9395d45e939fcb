/-
  Quoted texts of TOML.

  * Basic strings have double quotes and escapes; literal strings have single
    quotes and none.
  * With three quotes on each side a string may span lines.  A line feed right
    behind the opening quotes is dropped, up to two quotes may stand before the
    closing ones, and in a basic string a backslash at the end of a line drops
    all blanks and line feeds up to the next character.

  Each reader takes the text behind the opening quotes and gives the content
  with the text behind the closing ones.
-/
import StyleServer.Text.Utf8
import StyleServer.Toml.Scalar

namespace StyleServer

namespace Toml

/-- A character that strings and comments may hold: no control character but the tab. -/
def isPlain (c : Char) : Bool := c == '\t' || (0x20 ≤ c.toNat && c.toNat != 0x7F)

/-- The character with a code of exactly `count` digits in base sixteen. -/
def codePoint? (count : Nat) (text : Text) : Option (Char × Text) := do
  let digits ← (text.take count).mapM (digit? 16)
  let code := ofDigits 16 digits
  if digits.length = count ∧ code.isValidChar then
    return (Char.ofNat code, text.drop count)
  else none

/-- The character that an escape stands for, from behind its backslash. -/
def escape? : Text → Option (Char × Text)
  | 'b' :: rest => some ('\x08', rest)
  | 't' :: rest => some ('\t', rest)
  | 'n' :: rest => some ('\n', rest)
  | 'f' :: rest => some ('\x0c', rest)
  | 'r' :: rest => some ('\r', rest)
  | 'e' :: rest => some ('\x1b', rest)
  | '"' :: rest => some ('"', rest)
  | '\\' :: rest => some ('\\', rest)
  | 'x' :: rest => codePoint? 2 rest
  | 'u' :: rest => codePoint? 4 rest
  | 'U' :: rest => codePoint? 8 rest
  | _ => none

/-- A space or a tab. -/
def isSpace (c : Char) : Bool := c == ' ' || c == '\t'

/-- What follows a line end at the front of a text. -/
def lineEnd? : Text → Option Text
  | '\n' :: rest => some rest
  | '\r' :: '\n' :: rest => some rest
  | _ => none

/-- Without the blanks and line ends at the front. -/
def skipLines : Text → Text
  | '\n' :: rest => skipLines rest
  | '\r' :: '\n' :: rest => skipLines rest
  | ' ' :: rest => skipLines rest
  | '\t' :: rest => skipLines rest
  | text => text

/-- What follows a backslash at the end of a line, from behind it. -/
def continuation? (text : Text) : Option Text := (lineEnd? (text.dropWhile isSpace)).map skipLines

/-- A character in front of what has been read. -/
def consRead (c : Char) (read : Option (Text × Text)) : Option (Text × Text) :=
  read.map fun (content, rest) => (c :: content, rest)

/-- The content of a basic string of one line; `fuel` bounds the characters read. -/
def basicLine? : Nat → Text → Option (Text × Text)
  | 0, _ => none
  | fuel + 1, text =>
    match text with
    | [] => none
    | '"' :: rest => some ([], rest)
    | '\\' :: rest => do
      let (c, rest) ← escape? rest
      consRead c (basicLine? fuel rest)
    | c :: rest => if isPlain c then consRead c (basicLine? fuel rest) else none

/-- What a run of three quotes or more ends: up to two of them are content. -/
def closing (quote : Char) (rest : Text) : Text × Text :=
  let more := (rest.take 2).takeWhile (· == quote)
  (more, rest.drop more.length)

/-- The content of a basic string of several lines; `fuel` bounds the characters read. -/
def basicLines? : Nat → Text → Option (Text × Text)
  | 0, _ => none
  | fuel + 1, text =>
    match text with
    | [] => none
    | '"' :: '"' :: '"' :: rest => some (closing '"' rest)
    | '\\' :: rest =>
      match continuation? rest with
      | some rest => basicLines? fuel rest
      | none => do
        let (c, rest) ← escape? rest
        consRead c (basicLines? fuel rest)
    | '\r' :: '\n' :: rest => consRead '\r' (consRead '\n' (basicLines? fuel rest))
    | c :: rest => if isPlain c || c == '\n' then consRead c (basicLines? fuel rest) else none

/-- The content of a literal string of one line. -/
def literalLine? : Text → Option (Text × Text)
  | [] => none
  | '\'' :: rest => some ([], rest)
  | c :: rest => if isPlain c then consRead c (literalLine? rest) else none

/-- The content of a literal string of several lines. -/
def literalLines? : Text → Option (Text × Text)
  | [] => none
  | '\'' :: '\'' :: '\'' :: rest => some (closing '\'' rest)
  | '\r' :: '\n' :: rest => consRead '\r' (consRead '\n' (literalLines? rest))
  | c :: rest => if isPlain c || c == '\n' then consRead c (literalLines? rest) else none

/-- Without a line end at the front. -/
def dropLineEnd (text : Text) : Text := (lineEnd? text).getD text

/-- The content of a string of any form, and the text behind it. -/
def quoted? : Text → Option (Text × Text)
  | '"' :: '"' :: '"' :: rest => basicLines? (rest.length + 1) (dropLineEnd rest)
  | '"' :: rest => basicLine? (rest.length + 1) rest
  | '\'' :: '\'' :: '\'' :: rest => literalLines? (dropLineEnd rest)
  | '\'' :: rest => literalLine? rest
  | _ => none

/-- The content of a string of one line, and the text behind it. -/
def quotedLine? : Text → Option (Text × Text)
  | '"' :: '"' :: '"' :: _ | '\'' :: '\'' :: '\'' :: _ => none
  | '"' :: rest => basicLine? (rest.length + 1) rest
  | '\'' :: rest => literalLine? rest
  | _ => none

end Toml

end StyleServer
