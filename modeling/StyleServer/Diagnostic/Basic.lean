/-
  Diagnostics: what is wrong with a style sheet, and where.

  A diagnostic carries its cause; code, severity and wording follow from it.
-/
import StyleServer.Text.Position

namespace StyleServer

/-- How serious a diagnostic is. -/
inductive Severity where
  | error
  | warning
deriving DecidableEq

/-- What a diagnostic reports. -/
inductive Issue where
  | unmatchedClosingBrace
  | unclosedBrace
  | nestedBlock
  | undefinedVariable (name : String)
  | unknownProperty (name : String)
  | invalidValue (value property : String) (expected : List String)
deriving DecidableEq

namespace Issue

/-- The identifier published with a diagnostic. -/
def code : Issue → String
  | unmatchedClosingBrace => "unmatched-closing-brace"
  | unclosedBrace => "unclosed-brace"
  | nestedBlock => "nested-block"
  | undefinedVariable _ => "undefined-variable"
  | unknownProperty _ => "unknown-property"
  | invalidValue _ _ _ => "invalid-value"

/-- Variables and values are warned about; the rest are errors. -/
def severity : Issue → Severity
  | undefinedVariable _ | invalidValue _ _ _ => .warning
  | unmatchedClosingBrace | unclosedBrace | nestedBlock | unknownProperty _ => .error

/-- The wording. -/
def message : Issue → String
  | unmatchedClosingBrace => "Unmatched closing brace"
  | unclosedBrace => "Unclosed brace - missing closing brace"
  | nestedBlock => "Nested blocks are not supported in USS"
  | undefinedVariable name => "Undefined CSS variable: " ++ name
  | unknownProperty name => "Property '" ++ name ++ "' is not supported in USS"
  | invalidValue value property expected =>
    "Value '" ++ value ++ "' is not valid for property '" ++ property ++ "'. Expected: " ++
      " | ".intercalate expected

end Issue

/-- An issue at a range. -/
structure Diagnostic where
  range : Range
  issue : Issue
deriving DecidableEq

namespace Diagnostic

/-- The severity of the issue. -/
def severity (d : Diagnostic) : Severity := d.issue.severity

/-- The diagnostic is an error. -/
def isError (d : Diagnostic) : Bool := d.severity == .error

end Diagnostic

end StyleServer
