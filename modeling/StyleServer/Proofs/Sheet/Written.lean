/-
  Style sheets as they are written.

  The grammar: a sheet is a sequence of imports and rules; a rule is a list of selectors
  with a block of declarations.  Blanks may stand around all parts, and a value of these
  types fixes where.

  * `Source.render`: the text of a sheet.
  * `Source.ReadAs`: a parsed sheet holds the imports and rules of a written one, and
    nothing else.
-/
import StyleServer.Sheet.Basic

namespace StyleServer

namespace Written

/-! ## Words -/

/-- Blanks, or nothing. -/
structure Blanks where
  chars : Text
  blank : ∀ c ∈ chars, isAsciiBlank c = true

/-- A name: letters, digits, `-`, `_` and characters outside ASCII that are no blanks. -/
structure Name where
  chars : Text
  ne_nil : chars ≠ []
  named : ∀ c ∈ chars, isNameChar c = true ∧ isBlank c = false

/-- A value: no blank begins or ends it, and it holds no mark, quote or slash. -/
structure Value where
  chars : Text
  ne_nil : chars ≠ []
  first : ∀ c ∈ chars.head?, isBlank c = false
  last : ∀ c ∈ chars.getLast?, isBlank c = false
  plain : ∀ c ∈ chars, c ∉ ['\x7b', '\x7d', ';', '"', '\'', '/']

/-- A path, which may stand between quotes of either kind. -/
structure Path where
  chars : Text
  ne_nil : chars ≠ []
  plain : ∀ c ∈ chars, c ∉ ['"', '\'', '\\', '\n']

/-! ## Imports -/

/-- The quotes around a path. -/
inductive Quote where
  | double
  | single

/-- The character of a quote. -/
def Quote.char : Quote → Char
  | double => '"'
  | single => '\''

/-- The blanks of `url( )` around a path. -/
structure Wrapping where
  beforeOpening : Blanks
  afterOpening : Blanks
  beforeClosing : Blanks

/-- An import directive.  A blank at least follows the keyword. -/
structure Directive where
  before : Blanks
  afterKeyword : Blanks
  parted : afterKeyword.chars ≠ []
  /-- The path stands inside `url( )`. -/
  wrapping : Option Wrapping
  quote : Quote
  path : Path
  beforeEnd : Blanks

namespace Directive

/-- What stands before the quoted path. -/
def opening (i : Directive) : Text :=
  match i.wrapping with
  | some w => ['u', 'r', 'l'] ++ (w.beforeOpening.chars ++ (['('] ++ w.afterOpening.chars))
  | none => []

/-- What stands behind the quoted path. -/
def closing (i : Directive) : Text :=
  match i.wrapping with
  | some w => w.beforeClosing.chars ++ [')']
  | none => []

/-- From the keyword to the last character of the argument. -/
def body (i : Directive) : Text :=
  ['@', 'i', 'm', 'p', 'o', 'r', 't'] ++ (i.afterKeyword.chars ++
    (i.opening ++ i.quote.char :: (i.path.chars ++ i.quote.char :: i.closing)))

/-- The text of a directive. -/
def render (i : Directive) : Text := i.before.chars ++ (i.body ++ i.beforeEnd.chars) ++ [';']

/-- Path, and whether it stands inside `url( )`. -/
def content (i : Directive) : String × Bool := (String.ofList i.path.chars, i.wrapping.isSome)

end Directive

/-! ## Rules -/

/-- A selector. -/
inductive Simple where
  | styleClass (name : Name)
  | id (name : Name)
  | element (name : Name)
  | universal
  | pseudo (name : Name)

namespace Simple

/-- The text of a selector. -/
def chars : Simple → Text
  | styleClass x => '.' :: x.chars
  | id x => '#' :: x.chars
  | element x => x.chars
  | universal => ['*']
  | pseudo x => ':' :: x.chars

/-- The kind of a selector. -/
def kind : Simple → SelectorKind
  | styleClass _ => .styleClass
  | id _ => .id
  | element _ => .element
  | universal => .universal
  | pseudo _ => .pseudo

/-- The name of a selector. -/
def name : Simple → Text
  | styleClass x | id x | element x | pseudo x => x.chars
  | universal => ['*']

/-- Kind, name and text. -/
def content (s : Simple) : SelectorKind × String × String :=
  (s.kind, String.ofList s.name, String.ofList s.chars)

end Simple

/-- A selector behind a comma. -/
structure Further where
  beforeComma : Blanks
  afterComma : Blanks
  selector : Simple

/-- The text of a comma and the selector behind it. -/
def Further.render (f : Further) : Text :=
  f.beforeComma.chars ++ ',' :: (f.afterComma.chars ++ f.selector.chars)

/-- A declaration with its semicolon. -/
structure Entry where
  before : Blanks
  name : Name
  afterName : Blanks
  beforeValue : Blanks
  value : Value
  afterValue : Blanks

namespace Entry

/-- From the name to the end of the value. -/
def body (e : Entry) : Text :=
  e.name.chars ++ (e.afterName.chars ++ ':' :: (e.beforeValue.chars ++ e.value.chars))

/-- The text of a declaration. -/
def render (e : Entry) : Text := e.before.chars ++ (e.body ++ e.afterValue.chars) ++ [';']

/-- Name and value. -/
def content (e : Entry) : String × String := (String.ofList e.name.chars, String.ofList e.value.chars)

end Entry

/-- A rule. -/
structure Block where
  before : Blanks
  first : Simple
  further : List Further
  beforeOpening : Blanks
  entries : List Entry
  beforeClosing : Blanks

namespace Block

/-- From the first selector to the end of the last. -/
def clause (b : Block) : Text := b.first.chars ++ b.further.flatMap Further.render

/-- The text of a rule. -/
def render (b : Block) : Text :=
  b.before.chars ++ (b.clause ++ b.beforeOpening.chars) ++ ['\x7b'] ++
    (b.entries.flatMap Entry.render ++ (b.beforeClosing.chars ++ ['\x7d']))

/-- Selectors and declarations. -/
def content (b : Block) : List (SelectorKind × String × String) × List (String × String) :=
  (b.first.content :: b.further.map (·.selector.content), b.entries.map Entry.content)

end Block

/-! ## Sheets -/

/-- A statement of a sheet. -/
inductive Statement where
  | directive (i : Directive)
  | block (b : Block)

namespace Statement

/-- The text of a statement. -/
def render : Statement → Text
  | directive i => i.render
  | block b => b.render

/-- The import that a statement is. -/
def directive? : Statement → Option Directive
  | directive i => some i
  | block _ => none

/-- The rule that a statement is. -/
def block? : Statement → Option Block
  | directive _ => none
  | block b => some b

end Statement

/-- A sheet. -/
structure Source where
  statements : List Statement
  after : Blanks

/-- The text of a sheet. -/
def Source.render (s : Source) : Text := s.statements.flatMap Statement.render ++ s.after.chars

-- An import and an empty rule, with a blank where one is needed and nowhere else.
example :
    let none : Blanks := ⟨[], by simp⟩
    let one : Blanks := ⟨[' '], by simp [isAsciiBlank]⟩
    let path : Path := ⟨['a', ';'], by simp, by simp⟩
    Source.render
      ⟨[.directive ⟨none, one, by simp [one], some ⟨none, none, none⟩, .single, path, none⟩,
        .block ⟨none, .universal, [], none, [], none⟩], none⟩ =
      "@import url('a;');*\x7b\x7d".toList := rfl

end Written

/-! ## What is read -/

/-- Kind, name and text. -/
def Selector.content (s : Selector) : SelectorKind × String × String := (s.kind, s.name, s.text)

/-- Name and value. -/
def Declaration.content (d : Declaration) : String × String := (d.name, d.value)

/-- Selectors and declarations. -/
def Rule.content (r : Rule) : List (SelectorKind × String × String) × List (String × String) :=
  (r.selectors.map Selector.content, r.declarations.map Declaration.content)

/-- Path, and whether it stands inside `url( )`. -/
def Import.content (i : Import) : String × Bool := (i.path, i.isUrl)

/-- The parsed sheet holds the imports and the rules of the written one, in order; all rules are
    closed, and there are no nested blocks. -/
structure Written.Source.ReadAs (source : Source) (s : Sheet) : Prop where
  imports : s.imports.map Import.content =
    (source.statements.filterMap Statement.directive?).map Directive.content
  rules : s.rules.map Rule.content =
    (source.statements.filterMap Statement.block?).map Block.content
  closed : ∀ r ∈ s.rules, r.closed = true
  nestedBlocks : s.nestedBlocks = []

end StyleServer
