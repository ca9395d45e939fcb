/-
  Property files.

  A property file is a TOML document with a table `knowledge` about itself and
  an array `properties` of definitions.  Keys without a meaning are passed over;
  a value of the wrong type refuses the whole file.

  A record may also be written as an array, which gives its fields by position.
-/
import StyleServer.Property.Registry
import StyleServer.Toml.Document

namespace StyleServer

namespace Toml

/-- The fields of a record: those of a table, or the items of an array under the names
    they stand for.  An array has to give the first `least` of them.  What a table has
    under other names must be readable too. -/
def fields? (names : List String) (least : Nat) : Toml → Option Entries
  | array _ items => if least ≤ items.length then some (names.zip items) else none
  | value => value.entries?.filter (·.all fun (name, value) => name ∈ names || value.isReadable)

/-- A field that may be missing. -/
def optional? {α : Type} (read : Toml → Option α) (fields : Entries) (name : String) :
    Option (Option α) :=
  match fields.lookup name with
  | none => some none
  | some value => (read value).map some

/-- A field that takes a default when it is missing. -/
def withDefault? {α : Type} (read : Toml → Option α) (default : α) (fields : Entries)
    (name : String) : Option α :=
  (optional? read fields name).map (·.getD default)

/-- A field that must be there. -/
def required? {α : Type} (read : Toml → Option α) (fields : Entries) (name : String) : Option α :=
  (fields.lookup name).bind read

end Toml

open Toml (optional? withDefault? required?)

namespace Animatable

/-- The behaviour of a name. -/
def ofName? : String → Option Animatable
  | "fully" => some fully
  | "discrete" => some discrete
  | "non-animatable" => some never
  | _ => none

/-- A behaviour: its name, or a table in which that name has an empty value. -/
def ofToml? : Toml → Option Animatable
  | .string name => ofName? name
  | .table _ [(name, .table _ [])] | .table _ [(name, .array _ [])] => ofName? name
  | _ => none

end Animatable

/-- Descriptions of keywords. -/
def keywordDocs? (value : Toml) : Option (List (String × String)) := do
  (← value.entries?).mapM fun (keyword, description) => do return (keyword, ← description.string?)

/-- A definition. -/
def Definition.ofToml? (value : Toml) : Option Definition := do
  let fields ← value.fields? ["name", "syntax", "description", "inherited", "animatable",
    "unity_specific", "values", "value_docs"] 7
  return {
    name := ← required? Toml.string? fields "name"
    grammar := ← optional? Toml.string? fields "syntax"
    description := ← required? Toml.string? fields "description"
    inherited := ← withDefault? Toml.boolean? false fields "inherited"
    animatable := ← withDefault? Animatable.ofToml? .never fields "animatable"
    unitySpecific := ← withDefault? Toml.boolean? false fields "unity_specific"
    keywords := ← optional? Toml.strings? fields "values"
    keywordDocs := ← withDefault? keywordDocs? [] fields "value_docs" }

/-- What a file says about itself. -/
def KnowledgeInfo.ofToml? (value : Toml) : Option KnowledgeInfo := do
  let fields ← value.fields? ["name", "version", "description"] 3
  return {
    name := ← required? Toml.string? fields "name"
    version := ← optional? Toml.string? fields "version"
    description := ← optional? Toml.string? fields "description" }

namespace PropertyFile

/-- The content of a document. -/
def ofToml? (document : Toml) : Option PropertyFile := do
  let fields ← document.fields? ["knowledge", "properties"] 0
  return {
    knowledge := ← optional? KnowledgeInfo.ofToml? fields "knowledge"
    properties := ← withDefault?
      (fun value => do (← value.array?).mapM Definition.ofToml?) [] fields "properties" }

/-- The content of a property file's text. -/
def parse? (text : String) : Option PropertyFile := (Toml.document? text).bind ofToml?

end PropertyFile

end StyleServer
