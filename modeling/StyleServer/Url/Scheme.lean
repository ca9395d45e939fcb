/-
  Schemes of URLs, and the text in front of the rest.

  Special schemes (`file`, `http`, `https`, `ws`, `wss`, `ftp`) also divide a
  path by backslashes, and always have one.  Control characters and spaces
  around a URL are dropped; tabs and line ends inside it are breaks, which do
  not belong to any component.
-/
import StyleServer.Text.Utf8

namespace StyleServer

/-- How a scheme divides its text. -/
inductive SchemeKind where
  | file
  | special
  | other
deriving DecidableEq

namespace SchemeKind

/-- The kind of a scheme. -/
def of (scheme : String) : SchemeKind :=
  if scheme = "file" then file
  else if scheme ∈ ["http", "https", "ws", "wss", "ftp"] then special
  else other

/-- Backslashes divide a path. -/
def isSpecial (k : SchemeKind) : Bool := k != other

/-- A character that divides a path. -/
def divides (k : SchemeKind) (c : Char) : Bool := c == '/' || (k.isSpecial && c == '\\')

end SchemeKind

namespace Url

/-- The number behind a host that a scheme implies. -/
def defaultPortNumber? : String → Option Nat
  | "http" | "ws" => some 80
  | "https" | "wss" => some 443
  | "ftp" => some 21
  | _ => none

/-- A character that is passed over anywhere in a URL. -/
def isBreak (c : Char) : Bool := c == '\t' || c == '\n' || c == '\r'

/-- Without breaks. -/
def squeeze (text : Text) : Text := text.filter (!isBreak ·)

/-- The pieces of a text between its breaks. -/
def runs (text : Text) : List Text :=
  (text.splitBy fun c d => isBreak c == isBreak d).filter fun run => !run.any isBreak

/-- The first character that is no break, and what follows it. -/
def next? (text : Text) : Option (Char × Text) :=
  match text.dropWhile isBreak with
  | [] => none
  | c :: rest => some (c, rest)

/-- Without control characters and spaces on either side. -/
def trimControls (text : Text) : Text :=
  let edge (c : Char) : Bool := c.toNat ≤ 0x20
  ((text.dropWhile edge).reverse.dropWhile edge).reverse

/-- A character of a scheme behind the first. -/
def isSchemeChar (c : Char) : Bool := c.isAlphanum || c == '+' || c == '-' || c == '.'

/-- The scheme in lower case, and what follows its colon. -/
def scheme? (text : Text) : Option (String × Text) :=
  let inside (c : Char) : Bool := isSchemeChar c || isBreak c
  match squeeze (text.takeWhile inside), text.dropWhile inside with
  | c :: name, ':' :: rest =>
    if c.isAlpha then some (String.ofList ((c :: name).map Char.toLower), rest) else none
  | _, _ => none

end Url

end StyleServer
