/-
  Project settings, read from a TOML document.

  Each setting has a default, which it keeps when the document does not give it.
-/
import StyleServer.Property.File

namespace StyleServer

/-- Settings of diagnostics. -/
structure ValidationSettings where
  /-- Diagnostics are published at all. -/
  enabled : Bool := true
  /-- Properties are checked against the registry. -/
  properties : Bool := true
deriving DecidableEq

/-- Settings of hover texts and completion. -/
structure AssistSettings where
  enabled : Bool := true
deriving DecidableEq

/-- The pattern of style sheets. -/
def sheetPattern : String := "**/*.uss"

/-- Settings of the workspace. -/
structure WorkspaceSettings where
  /-- Style sheets that belong to the workspace. -/
  pattern : String := sheetPattern
  /-- What is left out. -/
  exclude : List String := ["**/node_modules/**", "**/Library/**", "**/Temp/**"]
deriving DecidableEq

/-- The settings of a project. -/
structure Settings where
  validation : ValidationSettings := {}
  assist : AssistSettings := {}
  workspace : WorkspaceSettings := {}
deriving DecidableEq

/-- Settings of diagnostics. -/
def ValidationSettings.ofToml? (value : Toml) : Option ValidationSettings := do
  let fields ← value.fields? ["enabled", "properties"] 0
  return {
    enabled := ← Toml.withDefault? Toml.boolean? true fields "enabled"
    properties := ← Toml.withDefault? Toml.boolean? true fields "properties" }

/-- Settings of hover texts and completion. -/
def AssistSettings.ofToml? (value : Toml) : Option AssistSettings := do
  let fields ← value.fields? ["enabled"] 0
  return { enabled := ← Toml.withDefault? Toml.boolean? true fields "enabled" }

/-- Settings of the workspace. -/
def WorkspaceSettings.ofToml? (value : Toml) : Option WorkspaceSettings := do
  let default : WorkspaceSettings := {}
  let fields ← value.fields? ["pattern", "exclude"] 0
  return {
    pattern := ← Toml.withDefault? Toml.string? default.pattern fields "pattern"
    exclude := ← Toml.withDefault? Toml.strings? default.exclude fields "exclude" }

/-- The settings of a document's text. -/
def Settings.parse? (text : String) : Option Settings := do
  let document ← Toml.document? text
  let fields ← document.fields? ["validation", "intellisense", "workspace"] 0
  return {
    validation := ← Toml.withDefault? ValidationSettings.ofToml? {} fields "validation"
    assist := ← Toml.withDefault? AssistSettings.ofToml? {} fields "intellisense"
    workspace := ← Toml.withDefault? WorkspaceSettings.ofToml? {} fields "workspace" }

end StyleServer
