/-
  The outline of a style sheet: a symbol for each rule, and below it one for
  each of its declarations.
-/
import StyleServer.Sheet.Basic

namespace StyleServer

/-- The symbol of a declaration. -/
structure DeclarationSymbol where
  name : String
  value : String
  /-- It declares a variable. -/
  isCustom : Bool
  range : Range
  /-- The range of the name. -/
  selection : Range
deriving DecidableEq

/-- The symbol of a rule. -/
structure RuleSymbol where
  name : String
  closed : Bool
  range : Range
  /-- The range of the first selector. -/
  selection : Range
  children : List DeclarationSymbol
deriving DecidableEq

namespace Sheet

/-- The symbol of a declaration of the sheet. -/
def declarationSymbol (s : Sheet) (d : Declaration) : DeclarationSymbol :=
  ⟨d.name, d.value, d.isCustom, s.range d.span, s.range d.nameSpan⟩

/-- What is selected for a rule: its first selector, or its start without one. -/
def selectionOf (r : Rule) : Span := (r.selectors.head?.map (·.span)).getD (.point r.span.start)

/-- The symbol of a rule of the sheet. -/
def ruleSymbol (s : Sheet) (r : Rule) : RuleSymbol where
  name := r.selectorText
  closed := r.closed
  range := s.range r.span
  selection := s.range (selectionOf r)
  children := r.declarations.map s.declarationSymbol

/-- The symbols of the sheet, in order. -/
def outline (s : Sheet) : List RuleSymbol := s.rules.map s.ruleSymbol

end Sheet

end StyleServer
