/-
  Validation of a whole style sheet.

  * `variableDiagnostics`: references to variables that the sheet does not
    declare.
  * `propertyDiagnostics`: unknown properties, and values outside a closed set.
    Variables are not checked, nor values made from them.
  * `Sheet.validate`: all of these with those of the braces, in the order of
    their ranges; among equal ranges, braces come first and properties last.
-/
import StyleServer.Diagnostic.Braces
import StyleServer.Property.Registry
import StyleServer.Sheet.Lookup

namespace StyleServer

namespace Sheet

/-- References to variables that the sheet does not declare. -/
def variableDiagnostics (s : Sheet) : List Diagnostic :=
  let declared := s.customProperties.map (·.name)
  ((s.declarations.flatMap Declaration.refs).filter fun ref => !declared.contains ref.name).map
    fun ref => ⟨s.range ref.span, .undefinedVariable ref.name⟩

/-- What is wrong with one declaration, given the known properties. -/
def propertyIssue? (s : Sheet) (r : Registry) (d : Declaration) : Option Diagnostic :=
  if d.isCustom then none
  else match r.find? d.name with
  | none => some ⟨s.range d.nameSpan, .unknownProperty d.name⟩
  | some definition =>
    if d.usesVariables || definition.accepts d.value then none
    else some ⟨s.range d.valueSpan,
      .invalidValue d.value d.name (definition.keywords.getD [])⟩

/-- What is wrong with the declarations, given the known properties. -/
def propertyDiagnostics (s : Sheet) (r : Registry) : List Diagnostic :=
  s.declarations.filterMap (s.propertyIssue? r)

/-- All diagnostics of the sheet, by range.  Without a registry, properties are not
    checked. -/
def validate (s : Sheet) (knowledge : Option Registry) : List Diagnostic :=
  (braceDiagnostics s.source ++ s.variableDiagnostics ++
    (knowledge.map s.propertyDiagnostics).getD []).mergeSort fun d e => d.range.le e.range

end Sheet

/-- No diagnostic is an error. -/
def isValid (diagnostics : List Diagnostic) : Bool := !diagnostics.any Diagnostic.isError

end StyleServer
