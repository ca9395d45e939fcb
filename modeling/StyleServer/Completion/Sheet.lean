/-
  Completion in style sheets.

  * For a name, the known properties that begin with what is typed.
  * For a value, the keywords of the property, samples of the data types that
    its grammar mentions, and the variables of the sheet.
-/
import StyleServer.Completion.Context
import StyleServer.Completion.Item
import StyleServer.Property.Registry
import StyleServer.Sheet.Lookup

namespace StyleServer

namespace CompletionItem

/-- A known property. -/
def ofProperty (d : Definition) : CompletionItem where
  label := d.name
  kind := .property
  detail := d.grammar
  documentation := some d.documentation
  insertText := some (d.name ++ ": ")
  filterText := some d.name

/-- A keyword of a property. -/
def ofKeyword (d : Definition) (keyword : String) : CompletionItem where
  label := keyword
  kind := .keyword
  detail := some d.name
  documentation := d.keywordDocumentation? keyword
  sortText := some ("0" ++ keyword)

/-- A sample value. -/
def sample (kind : ItemKind) (detail value : String) : CompletionItem where
  label := value
  kind := kind
  detail := some detail
  sortText := some ("1" ++ value)

/-- A reference to a variable. -/
def ofVariable (name : String) (value : Option String) : CompletionItem where
  label := "var(" ++ name ++ ")"
  kind := .customProperty
  detail := value
  sortText := some ("1" ++ name)

/-- A reference to a variable that is yet to be named. -/
def variableTemplate : CompletionItem where
  label := "var(--custom-property)"
  kind := .snippet
  detail := some "Variable reference template"
  insertText := some "var(--$\x7b1:custom-property\x7d)"
  hasPlaces := true
  sortText := some "2"

end CompletionItem

/-- Samples of lengths. -/
def lengthSamples : List CompletionItem :=
  [.sample .value "Length in pixels" "0px", .sample .value "Length relative to the parent" "0%"]

/-- Samples of colors. -/
def colorSamples : List CompletionItem :=
  ["transparent", "white", "black", "red", "green", "blue", "yellow", "cyan", "magenta",
    "gray"].map (.sample .color "Color keyword") ++ [.sample .color "Hex color value" "#000000"]

/-- Samples of numbers. -/
def numberSamples : List CompletionItem :=
  ["0", "1", "2", "0.5", "1.5"].map (.sample .value "Numeric value")

/-- Samples of the data types that the grammar of a property mentions. -/
def Definition.samples (d : Definition) : List CompletionItem :=
  (if d.acceptsType "length" then lengthSamples else []) ++
    (if d.acceptsType "color" then colorSamples else []) ++
    (if d.acceptsType "number" then numberSamples else [])

/-- The keywords and samples of a property. -/
def Definition.valueItems (d : Definition) : List CompletionItem :=
  ((d.keywords.getD []).map (.ofKeyword d)) ++ d.samples

namespace Registry

/-- The known properties that begin with what is typed. -/
def nameItems (r : Registry) (typed : String) : List CompletionItem :=
  (r.definitions.filter fun d => typed.toList.isPrefixOf d.name.toList).map .ofProperty

end Registry

namespace Sheet

/-- References to the variables of the sheet, or a template when it has none. -/
def variableItems (s : Sheet) : List CompletionItem :=
  match s.customNames with
  | [] => [.variableTemplate]
  | names => names.map fun name => .ofVariable name ((s.findCustom? name).map (·.value))

/-- The items of a context. -/
def itemsIn (s : Sheet) (r : Registry) : CompletionContext → List CompletionItem
  | .selector => []
  | .name typed => r.nameItems typed
  | .value property =>
    ((r.find? property).elim [] Definition.valueItems) ++ s.variableItems

/-- The items at an offset. -/
def completionItems (s : Sheet) (r : Registry) (offset : Nat) :
    Except Text.CutError (List CompletionItem) :=
  (completionContext s.source offset).map (s.itemsIn r)

end Sheet

end StyleServer
