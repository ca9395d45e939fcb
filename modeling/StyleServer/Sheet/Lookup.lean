/-
  Looking things up in a style sheet, by name and by offset.

  An offset hits a span whose ends include it.  Of two rules that meet at an
  offset, the one that begins there is meant.
-/
import StyleServer.Sheet.Basic

namespace StyleServer

/-- The members of a list without later repetitions, in order. -/
def distinct (names : List String) : List String :=
  names.foldl (fun seen name => if seen.contains name then seen else seen ++ [name]) []

namespace Sheet

/-- The first declaration of a variable. -/
def findCustom? (s : Sheet) (name : String) : Option CustomProperty :=
  s.customProperties.find? (·.name == name)

/-- Names of the variables that the sheet declares, without repetitions. -/
def customNames (s : Sheet) : List String := distinct (s.customProperties.map (·.name))

/-- Names of the classes that the sheet selects, without repetitions. -/
def classNames (s : Sheet) : List String :=
  distinct ((s.selectors.filter (·.kind == .styleClass)).map (·.name))

/-- The first selector of a class. -/
def findClass? (s : Sheet) (name : String) : Option Selector :=
  s.selectors.find? fun sel => sel.kind == .styleClass && sel.name == name

/-- The rule at an offset. -/
def ruleAt? (s : Sheet) (offset : Nat) : Option Rule :=
  (s.rules.find? (·.span.covers offset)).or (s.rules.find? (·.span.touches offset))

/-- The declaration at an offset. -/
def declarationAt? (s : Sheet) (offset : Nat) : Option Declaration :=
  (s.ruleAt? offset).bind fun rule => rule.declarations.find? (·.span.touches offset)

/-- The selector at an offset. -/
def selectorAt? (s : Sheet) (offset : Nat) : Option Selector :=
  (s.ruleAt? offset).bind fun rule => rule.selectors.find? (·.span.touches offset)

/-- The import whose path stands at an offset. -/
def importAt? (s : Sheet) (offset : Nat) : Option Import :=
  s.imports.find? (·.pathSpan.touches offset)

/-- The reference to a variable at an offset. -/
def refAt? (s : Sheet) (offset : Nat) : Option VariableRef :=
  (s.declarationAt? offset).bind fun d => d.refs.find? (·.span.touches offset)

end Sheet

end StyleServer
