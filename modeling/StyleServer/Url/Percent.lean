/-
  Percent encoding.

  A character outside of ASCII, a control character and the characters of a
  component's own set are written byte by byte, each as `%` and two digits.
-/
import StyleServer.Text.Bytes
import StyleServer.Text.Digit

namespace StyleServer

namespace Percent

/-- A digit of base sixteen in upper case. -/
def writeDigit (n : Nat) : Char := Char.ofNat (if n < 10 then 0x30 + n else 0x37 + n)

/-- A byte as written. -/
def byte (b : UInt8) : Text := ['%', writeDigit (b.toNat / 16), writeDigit (b.toNat % 16)]

/-- A control character, or one outside of ASCII. -/
def isControl (c : Char) : Bool := c.toNat < 0x20 || 0x7F ≤ c.toNat

/-- The characters that a component does not hold as they are, besides the control
    characters. -/
abbrev EncodeSet := List Char

/-- The set of fragments. -/
def fragmentSet : EncodeSet := [' ', '"', '<', '>', '\x60']

/-- The set of paths. -/
def pathSet : EncodeSet := fragmentSet ++ ['#', '?', '\x7b', '\x7d']

/-- The set of names of files, which become segments of a path. -/
def fileNameSet : EncodeSet := pathSet ++ ['/', '%', '\\']

/-- The set of user names and passwords. -/
def userSet : EncodeSet := pathSet ++ ['/', ':', ';', '=', '@', '[', '\\', ']', '^', '|']

/-- The set of queries. -/
def querySet : EncodeSet := [' ', '"', '#', '<', '>']

/-- The set of queries in special schemes. -/
def specialQuerySet : EncodeSet := querySet ++ ['\'']

/-- A character as a component writes it. -/
def encodeChar (set : EncodeSet) (c : Char) : Text :=
  if isControl c || set.contains c then (String.utf8EncodeChar c).flatMap byte else [c]

/-- A byte as a component writes it. -/
def encodeByte (set : EncodeSet) (b : UInt8) : Text :=
  let c := Char.ofNat b.toNat
  if isControl c || set.contains c then byte b else [c]

/-- A text as a component writes it. -/
def encode (set : EncodeSet) (text : Text) : Text := text.flatMap (encodeChar set)

/-- The byte that a `%` and two digits write at the front of a text. -/
def escape? : Text → Option UInt8
  | '%' :: high :: low :: _ => do
    return UInt8.ofNat (16 * (← digit? 16 high) + (← digit? 16 low))
  | _ => none

/-- The bytes that a text stands for, its first characters left out. -/
def decodeFrom : Nat → Text → List UInt8
  | _, [] => []
  | skipped + 1, _ :: rest => decodeFrom skipped rest
  | 0, c :: rest =>
    match escape? (c :: rest) with
    | some b => b :: decodeFrom 2 rest
    | none => String.utf8EncodeChar c ++ decodeFrom 0 rest

/-- The bytes that a text stands for.  A `%` without two digits stands for itself. -/
def decode (text : Text) : List UInt8 := decodeFrom 0 text

end Percent

end StyleServer
