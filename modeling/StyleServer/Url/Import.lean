/-
  Targets of imports.

  The path of an import is relative to the style sheet that has it; one that
  begins with a slash is relative to the root of the workspace.  A path whose
  last name has no extension gets that of style sheets.
-/
import StyleServer.Text.Fragment
import StyleServer.Url.File

namespace StyleServer

/-- The extension of style sheets, with its dot. -/
def sheetExtension : Text := ['.', 'u', 's', 's']

/-- The last name of a path has an extension; `.` and `..` have none. -/
def hasExtension (path : Text) : Bool :=
  let name := (path.reverse.takeWhile (· != '/')).reverse
  name ≠ ['.'] && name ≠ ['.', '.'] && name.contains '.'

/-- The path of an import with an extension; `none` when it is blank. -/
def importPath? (raw : String) : Option Text :=
  let path := Text.trim raw.toList
  if path.isEmpty then none
  else some (if hasExtension path then path else path ++ sheetExtension)

/-- The URL that the path of an import names, in a style sheet at `origin`. -/
def importTarget? (origin : Url) (root : Option Url) (raw : String) : Option Url := do
  let path ← importPath? raw
  match path with
  | '/' :: rooted => ((← root).asDirectory.join? (String.ofList rooted)).map Url.ofParts
  | _ => if origin.isPlain then none else origin.join? (String.ofList path)

end StyleServer
