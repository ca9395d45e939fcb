/-
  Domains and their labels.

  `Domain.ascii?` writes a domain in ASCII.  Its characters are mapped and
  composed; dots part it into labels.  A label that begins with `xn--` is a code
  for another, and one with characters outside of ASCII is written so.  A domain
  is refused when a label breaks a rule:

  * no mark comes first;
  * a joiner stands where characters can be joined, or behind a virama;
  * in a domain with letters that run to the left, every label has one
    direction.
-/
import StyleServer.Domain.Composition
import StyleServer.Domain.Mapping
import StyleServer.Domain.Punycode
import StyleServer.Domain.Traits

namespace StyleServer

namespace Domain

/-! ## Joiners -/

/-- The character that keeps its neighbours apart. -/
def nonJoiner : Char := '\u200c'

/-- The character that joins its neighbours. -/
def joiner : Char := '\u200d'

/-- The class of the marks that silence a vowel. -/
def viramaClass : Nat := 9

/-- The first character of a text that is not joined across joins on one of some sides. -/
def joinsOn (sides : List Joining) (text : Text) : Bool :=
  match text.find? fun c => (traits c).joining ≠ .across with
  | some c => (traits c).joining ∈ sides
  | none => false

/-- A joiner can stand between the characters before it, the last one first, and those
    behind it. -/
def joinerFits (before : Text) (c : Char) (behind : Text) : Bool :=
  before.head?.any (combiningClass · = viramaClass) ||
    (c == nonJoiner && joinsOn [.left, .both] before && joinsOn [.right, .both] behind)

/-- The joiners of a label can stand where they do, `before` being the characters before
    it, the last one first. -/
def joinersFit : Text → Text → Bool
  | _, [] => true
  | before, c :: behind =>
    ((c != nonJoiner && c != joiner) || joinerFits before c behind) &&
      joinersFit (c :: before) behind

/-! ## Directions -/

/-- A character runs to the left, or counts in Arabic digits. -/
def runsLeft (c : Char) : Bool := (traits c).direction ∈ [.leftward, .arabicDigit]

/-- The directions of a label's characters, of which the last but marks is one of some,
    are all among others. -/
def runsOn (inside last : List Direction) (directions : List Direction) : Bool :=
  directions.all (· ∈ inside) &&
    (directions.reverse.find? (· ≠ .mark)).all (· ∈ last)

/-- The label has one direction, which is that of its first character. -/
def hasDirection (label : Text) : Bool :=
  let directions := label.map fun c => (traits c).direction
  match directions.head? with
  | some .rightward =>
    runsOn [.rightward, .europeanDigit, .mark, .neutral] [.rightward, .europeanDigit] directions
  | some .leftward =>
    runsOn [.leftward, .europeanDigit, .arabicDigit, .mark, .neutral]
        [.leftward, .europeanDigit, .arabicDigit] directions &&
      !(directions.contains .europeanDigit && directions.contains .arabicDigit)
  | some _ => false
  | none => true

/-! ## Labels -/

/-- A label as it is read and as it is written. -/
structure Label where
  text : Text
  ascii : Text

/-- What a label begins with when it is a code. -/
def codeMark : Text := ['x', 'n', '-', '-']

/-- The most characters of a code that is read. -/
def longestCode : Nat := 2000

/-- The most characters of a label that is written as a code. -/
def longestLabel : Nat := 1000

/-- A label that is given as a code: the characters of what it stands for are kept ones,
    in their normal form. -/
def Label.ofCode? (code : Text) : Option Label := do
  if code.isEmpty ∨ code.getLast? = some '-' ∨ longestCode < code.length then none
  else
    let text ← Punycode.decode? code
    if text.all isKept ∧ normalize text = text then return ⟨text, codeMark ++ code⟩ else none

/-- A label of a domain that has been mapped. -/
def Label.of? (label : Text) : Option Label :=
  if codeMark.isPrefixOf label then Label.ofCode? (label.drop codeMark.length)
  else if label.all Punycode.isAscii then some ⟨label, label⟩
  else if longestLabel < label.length then none
  else some ⟨label, codeMark ++ Punycode.encode label⟩

/-- The label keeps the rules that do not depend on others. -/
def Label.isSound (l : Label) : Bool :=
  !l.text.head?.any (fun c => (traits c).isMark) && joinersFit [] l.text

/-! ## Domains -/

/-- A domain in ASCII; `none` when it is refused. -/
def ascii? (domain : Text) : Option Text := do
  let mapped ← mapText? domain
  let labels ← (Text.splitOn '.' (normalize mapped)).mapM Label.of?
  let isLeftward := labels.any (·.text.any runsLeft)
  if labels.all fun l => l.isSound && (!isLeftward || hasDirection l.text) then
    return ['.'].intercalate (labels.map (·.ascii))
  else none

end Domain

end StyleServer
