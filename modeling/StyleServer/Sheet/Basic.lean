/-
  Style sheets.

  * `Sheet`: the rules, imports and nested blocks of one text.
  * `Sheet.parse`: reads a text clause by clause.  Reading never fails: what is
    malformed is passed over.

  A block belongs to a rule when its clause has a body that does not begin with
  `@`; the content of any other block is passed over.  Blocks do not nest: a
  block inside a block is recorded by its span and passed over.
-/
import StyleServer.Sheet.Clause
import StyleServer.Sheet.Declaration
import StyleServer.Sheet.Import
import StyleServer.Sheet.Selector
import StyleServer.Text.Lines

namespace StyleServer

/-- A clause of selectors with the declarations of its block. -/
structure Rule where
  /-- The clause as written. -/
  selectorText : String
  selectors : List Selector
  declarations : List Declaration
  /-- From the clause through the closing brace. -/
  span : Span
  /-- The closing brace was found. -/
  closed : Bool
deriving DecidableEq

/-- What reading a text yields, in order. -/
inductive SheetItem where
  | rule (r : Rule)
  | directive (i : Import)
  /-- A block inside a block, from its clause through its closing brace. -/
  | nested (span : Span)
deriving DecidableEq

/-- Where reading stands among the blocks.  A block whose content is passed over has
    no owner. -/
inductive Level where
  | outside
  | block (owner : Option Rule)
  /-- Inside a nested block that began at `start`, below `depth` open braces of its
      own. -/
  | nested (owner : Option Rule) (start depth : Nat)
deriving DecidableEq

namespace Rule

/-- The rule that a clause opens, up to its brace. -/
def opened (clause : Fragment) (stop : Nat) : Rule where
  selectorText := clause.text
  selectors := Selector.listOf clause
  declarations := []
  span := ⟨clause.start, stop⟩
  closed := true

/-- With the declaration that a statement writes, if it writes one. -/
def declare (r : Rule) (statement : Option Fragment) : Rule :=
  { r with declarations := r.declarations ++ (statement.bind Declaration.ofFragment?).toList }

/-- Ended at an offset. -/
def endedAt (r : Rule) (stop : Nat) (closed : Bool) : Rule :=
  { r with span := ⟨r.span.start, stop⟩, closed := closed }

end Rule

namespace Level

/-- The owner of the block that a clause opens. -/
def ownerOf (c : Clause) : Option Rule :=
  match c.body with
  | some body => if body.chars.head? = some '@' then none else some (Rule.opened body c.stop)
  | none => none

/-- Reading one clause: the level behind it, and what it completes. -/
def step : Level → Clause → Level × List SheetItem
  | outside, c =>
    match c.mark with
    | .semicolon =>
      (outside, ((c.statement.bind Import.ofFragment?).map SheetItem.directive).toList)
    | .openBrace => (block (ownerOf c), [])
    | .closeBrace => (outside, [])
  | block owner, c =>
    match c.mark with
    | .semicolon => (block (owner.map (·.declare c.body)), [])
    | .openBrace => (nested owner c.start 1, [])
    | .closeBrace =>
      (outside, (owner.map fun r => .rule ((r.declare c.body).endedAt c.stop true)).toList)
  | nested owner start depth, c =>
    match c.mark with
    | .semicolon => (nested owner start depth, [])
    | .openBrace => (nested owner start (depth + 1), [])
    | .closeBrace =>
      if depth ≤ 1 then (block owner, [.nested ⟨start, c.stop⟩])
      else (nested owner start (depth - 1), [])

/-- What is left open at the end of a text of `size` bytes, behind whose last mark
    stands `last`. -/
def finish (size : Nat) (last : Option Fragment) : Level → List SheetItem
  | outside => []
  | block owner =>
    (owner.map fun r => .rule ((r.declare last).endedAt size false)).toList
  | nested owner start _ =>
    .nested ⟨start, size⟩ :: (owner.map fun r => .rule (r.endedAt size false)).toList

end Level

/-- What reading clauses from a level on yields. -/
def itemsFrom (size : Nat) (last : Option Fragment) : Level → List Clause → List SheetItem
  | level, [] => level.finish size last
  | level, c :: cs => (level.step c).2 ++ itemsFrom size last (level.step c).1 cs

/-- What reading a text yields. -/
def Text.items (text : Text) : List SheetItem :=
  itemsFrom text.byteLength text.clauses.2 .outside text.clauses.1

/-- The parsed form of a text. -/
structure Sheet where
  source : Text
  rules : List Rule
  imports : List Import
  /-- Spans of the blocks inside blocks. -/
  nestedBlocks : List Span
deriving DecidableEq

/-- A declaration of a variable, with the index of its rule. -/
structure CustomProperty where
  name : String
  value : String
  nameSpan : Span
  span : Span
  rule : Nat
deriving DecidableEq

namespace SheetItem

/-- The rule that an item is. -/
def rule? : SheetItem → Option Rule
  | rule r => some r
  | _ => none

/-- The import that an item is. -/
def directive? : SheetItem → Option Import
  | directive i => some i
  | _ => none

/-- The span of an item that is a nested block. -/
def nested? : SheetItem → Option Span
  | nested s => some s
  | _ => none

end SheetItem

namespace Sheet

/-- Reads a text. -/
def ofText (text : Text) : Sheet where
  source := text
  rules := text.items.filterMap SheetItem.rule?
  imports := text.items.filterMap SheetItem.directive?
  nestedBlocks := text.items.filterMap SheetItem.nested?

/-- Reads a style sheet. -/
def parse (text : String) : Sheet := ofText text.toList

/-- The declarations of all rules, in order. -/
def declarations (s : Sheet) : List Declaration := s.rules.flatMap Rule.declarations

/-- The selectors of all rules, in order. -/
def selectors (s : Sheet) : List Selector := s.rules.flatMap Rule.selectors

/-- The declarations of variables, in order and with repetitions. -/
def customProperties (s : Sheet) : List CustomProperty :=
  s.rules.zipIdx.flatMap fun (rule, index) =>
    (rule.declarations.filter Declaration.isCustom).map fun d =>
      ⟨d.name, d.value, d.nameSpan, d.span, index⟩

/-- The range of a span of the sheet's text. -/
def range (s : Sheet) (span : Span) : Range := s.source.range span

end Sheet

end StyleServer
