/-
  What is being typed at an offset of layout markup, judged by the text of its
  line before it.

  * Behind a class attribute's opening quote, with no quote since, a class.
  * Behind `<` and the characters of a name, an element.
  * Behind `<`, a name and a blank, with no `>` since, an attribute.
-/
import StyleServer.Text.Fragment
import StyleServer.Text.WordChar

namespace StyleServer

/-- What is typed at an offset of markup.  Names are without their namespace. -/
inductive MarkupContext where
  | styleClass
  /-- The name of an element, of which `typed` is there. -/
  | element (typed : String)
  /-- An attribute of an element. -/
  | attributeOf (element : String)
deriving DecidableEq

/-- A character of an element's name. -/
def isTagChar (c : Char) : Bool := c.isAlphanum || c == '.' || c == ':' || c == '-'

/-- An element's name: it begins with a letter. -/
def isTagName (name : Text) : Bool :=
  match name with
  | [] => false
  | c :: _ => c.isAlpha && name.all isTagChar

/-- A name without its namespace, which ends at the last colon. -/
def localName (name : Text) : String :=
  String.ofList (name.reverse.takeWhile (· != ':')).reverse

/-- The text ends inside the value of a class attribute, no quote of either kind
    standing in that value so far. -/
def endsInClassValue (line : Text) : Bool :=
  match line.reverse.dropWhile fun c => c != '"' && c != '\'' with
  | [] => false
  | _ :: before =>
    match before.dropWhile isBlank with
    | '=' :: before =>
      match before.dropWhile isBlank with
      | 's' :: 's' :: 'a' :: 'l' :: 'c' :: before => !(before.head?.any isWordChar)
      | _ => false
    | _ => false

/-- The element's name at the end of a text, perhaps empty, when a `<` stands before
    it. -/
def typedTag? (line : Text) : Option Text :=
  let name := (line.reverse.takeWhile isTagChar).reverse
  if (line.reverse.dropWhile isTagChar).head? = some '<' ∧ (name.isEmpty ∨ isTagName name) then
    some name
  else none

/-- The name of the first element whose list of attributes is still open. -/
def openTag? : Text → Option Text
  | [] => none
  | c :: cs =>
    let name := cs.takeWhile isTagChar
    match cs.dropWhile isTagChar with
    | blank :: rest =>
      if c = '<' ∧ isTagName name ∧ isBlank blank ∧ !rest.contains '>' then some name
      else openTag? cs
    | [] => openTag? cs

/-- What is typed at the end of a line's text. -/
def MarkupContext.ofLine? (line : Text) : Option MarkupContext :=
  if endsInClassValue line then some .styleClass
  else match typedTag? line with
    | some name => some (.element (localName name))
    | none => (openTag? line).map fun name => .attributeOf (localName name)

/-- What is typed at an offset, which goes to the end when it lies past it. -/
def markupContext (text : Text) (offset : Nat) :
    Except Text.CutError (Option MarkupContext) := do
  let (before, _) ← text.cut offset
  return MarkupContext.ofLine? (before.reverse.takeWhile (· != '\n')).reverse

end StyleServer
