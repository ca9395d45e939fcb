/-
  Hover texts: what is shown for the place under the pointer.

  On the name of a declaration, its documentation; on a keyword of its value,
  the description of that keyword; on a selector, its kind.
-/
import StyleServer.Property.Registry
import StyleServer.Sheet.Lookup

namespace StyleServer

/-- A text for a reader, with markup, and what it is about. -/
structure Hover where
  markdown : String
  range : Range
deriving DecidableEq

/-- A letter, digit, hyphen or underscore, all ASCII: what keywords are made of. -/
def isKeywordChar (c : Char) : Bool := c.isAlphanum || c == '-' || c == '_'

/-- The keyword of a value at an offset; `none` before the value, and between words. -/
def Fragment.keywordAt (value : Fragment) (offset : Nat) :
    Except Text.CutError (Option Fragment) :=
  if offset < value.start then .ok none
  else do
    let (before, after) ← value.chars.cut (offset - value.start)
    let left := (before.reverse.takeWhile isKeywordChar).reverse
    let skipped := before.reverse.dropWhile isKeywordChar
    let word := left ++ after.takeWhile isKeywordChar
    if word.isEmpty then return none
    else return some ⟨value.start + Text.byteLength skipped, word⟩

/-- What a selector is called. -/
def SelectorKind.description : SelectorKind → String
  | styleClass => "Class selector"
  | id => "Name selector"
  | element => "Type selector"
  | universal => "Universal selector"
  | pseudo => "Pseudo-class selector"

namespace Sheet

/-- The text for the name of a declaration. -/
def nameMarkdown (r : Registry) (d : Declaration) : String :=
  if d.isCustom then "**" ++ d.name ++ "**: `" ++ d.value ++ "`\n\nCustom property"
  else match r.find? d.name with
    | some definition => definition.documentation
    | none => "**" ++ d.name ++ "**\n\nUnknown property"

/-- The hover on the value of a declaration. -/
def hoverValue (s : Sheet) (r : Registry) (d : Declaration) (offset : Nat) :
    Except Text.CutError (Option Hover) :=
  match r.find? d.name, Fragment.slice? s.source d.valueSpan with
  | none, _ => .ok none
  | some _, none => .error .insideCharacter
  | some definition, some value => do
    let word ← value.keywordAt offset
    return word.bind fun word =>
      (definition.keywordDocumentation? word.text).map fun markdown =>
        ⟨markdown, s.range word.span⟩

/-- The hover on a selector. -/
def hoverSelector (s : Sheet) (sel : Selector) : Hover :=
  ⟨sel.kind.description ++ " `" ++ sel.text ++ "`", s.range sel.span⟩

/-- The hover at an offset. -/
def hover (s : Sheet) (r : Registry) (offset : Nat) : Except Text.CutError (Option Hover) :=
  match s.declarationAt? offset with
  | some d =>
    if d.nameSpan.touches offset then .ok (some ⟨nameMarkdown r d, s.range d.nameSpan⟩)
    else s.hoverValue r d offset
  | none => .ok ((s.selectorAt? offset).map s.hoverSelector)

end Sheet

end StyleServer
