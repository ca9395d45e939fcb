/-
  Completion in layout markup: elements, their attributes, and classes.
-/
import StyleServer.Completion.Item
import StyleServer.Text.Utf8

namespace StyleServer

/-- The elements of a layout, with their descriptions. -/
def layoutElements : List (String × String) := [
  ("VisualElement", "Base class for all visual elements"),
  ("BindableElement", "Base class for bindable elements"),
  ("Box", "A simple container element"),
  ("Button", "A clickable button element"),
  ("Label", "A text display element"),
  ("TextField", "A text input field"),
  ("Toggle", "A checkbox/toggle element"),
  ("Slider", "A slider for numeric input"),
  ("SliderInt", "A slider for integer input"),
  ("FloatField", "A field for float input"),
  ("IntegerField", "A field for integer input"),
  ("DoubleField", "A field for double input"),
  ("LongField", "A field for long input"),
  ("Vector2Field", "A field for Vector2 input"),
  ("Vector3Field", "A field for Vector3 input"),
  ("Vector4Field", "A field for Vector4 input"),
  ("Vector2IntField", "A field for Vector2Int input"),
  ("Vector3IntField", "A field for Vector3Int input"),
  ("RectField", "A field for Rect input"),
  ("RectIntField", "A field for RectInt input"),
  ("BoundsField", "A field for Bounds input"),
  ("BoundsIntField", "A field for BoundsInt input"),
  ("ScrollView", "A scrollable container"),
  ("ListView", "A list view for displaying collections"),
  ("TreeView", "A tree view for hierarchical data"),
  ("Foldout", "A collapsible section"),
  ("GroupBox", "A grouped container with optional title"),
  ("TwoPaneSplitView", "A split view with two panes"),
  ("TabView", "A tabbed container"),
  ("Tab", "A single tab in a TabView"),
  ("DropdownField", "A dropdown selection field"),
  ("EnumField", "A field for enum selection"),
  ("RadioButton", "A radio button element"),
  ("RadioButtonGroup", "A group of radio buttons"),
  ("Image", "An image display element"),
  ("ProgressBar", "A progress indicator"),
  ("MinMaxSlider", "A slider with min and max values"),
  ("HelpBox", "A help message box"),
  ("TemplateContainer", "A container for UXML templates"),
  ("Template", "A UXML template definition"),
  ("Instance", "An instance of a UXML template")]

/-- The attributes of every element, with their descriptions. -/
def commonAttributes : List (String × String) := [
  ("name", "The name of the element for identification"),
  ("class", "Style sheet classes applied to the element"),
  ("style", "Inline styles for the element"),
  ("picking-mode", "How the element responds to picking"),
  ("tooltip", "Tooltip text for the element"),
  ("usage-hints", "Hints for optimizing element usage")]

/-- The attributes that an element has besides the common ones. -/
def specificAttributes : String → List (String × String)
  | "Button" => [("text", "The text displayed on the button")]
  | "Label" => [("text", "The text content of the label")]
  | "TextField" => [
      ("value", "The current text value"),
      ("placeholder-text", "Placeholder text when empty"),
      ("multiline", "Whether the field supports multiple lines"),
      ("readonly", "Whether the field is read-only")]
  | "Toggle" => [
      ("value", "The current toggle state (true/false)"),
      ("text", "The label text for the toggle")]
  | "Slider" => [
      ("value", "The current slider value"),
      ("low-value", "The minimum value"),
      ("high-value", "The maximum value"),
      ("direction", "The direction of the slider")]
  | "Image" => [
      ("image", "The image asset to display"),
      ("scale-mode", "How the image should be scaled"),
      ("tint-color", "Tint color for the image")]
  | "ProgressBar" => [
      ("value", "The current progress value"),
      ("title", "The title text for the progress bar")]
  | _ => []

/-- What is inserted for an element, with a place for the text it shows. -/
def elementInsertion (name : String) : String :=
  match name with
  | "Button" | "Label" => name ++ " text=\"$1\"$0"
  | "TextField" => name ++ " placeholder-text=\"$1\"$0"
  | _ => name ++ "$0"

/-- The elements whose names begin with what is typed. -/
def elementItems (typed : String) : List CompletionItem :=
  (layoutElements.filter fun (name, _) => typed.toList.isPrefixOf name.toList).map
    fun (name, description) => {
      label := name
      kind := .styleClass
      detail := some "Unity UI Element"
      documentation := some description
      insertText := some (elementInsertion name)
      hasPlaces := true }

/-- An attribute. -/
def attributeItem (detail : String) (named : String × String) : CompletionItem where
  label := named.1
  kind := .property
  detail := some detail
  documentation := some named.2
  insertText := some (named.1 ++ "=\"$1\"$0")
  hasPlaces := true

/-- The attributes of an element: the common ones, then its own. -/
def attributeItems (element : String) : List CompletionItem :=
  commonAttributes.map (attributeItem "Common attribute") ++
    (specificAttributes element).map (attributeItem (element ++ " attribute"))

/-- The classes of style sheets. -/
def classItems (names : List String) : List CompletionItem :=
  names.map fun name => { label := name, kind := .styleClass, detail := some "USS class" }

end StyleServer
