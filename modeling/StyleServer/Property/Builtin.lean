/-
  The built-in knowledge base: the style properties that are known without any
  property file.
-/
import StyleServer.Property.Registry

namespace StyleServer

namespace PropertyFile

/-- Sizes, margins, padding and borders. -/
def boxProperties : List Definition := [
  {
    name := "width"
    grammar := some "<length> | auto"
    description := "Fixed width of an element for the layout"
    animatable := .fully },
  {
    name := "height"
    grammar := some "<length> | auto"
    description := "Fixed height of an element for the layout"
    animatable := .fully },
  {
    name := "min-width"
    grammar := some "<length> | auto"
    description := "Minimum width for an element, when it is flexible or measures its own size"
    animatable := .fully },
  {
    name := "min-height"
    grammar := some "<length> | auto"
    description := "Minimum height for an element, when it is flexible or measures its own size"
    animatable := .fully },
  {
    name := "max-width"
    grammar := some "<length> | none"
    description := "Maximum width for an element, when it is flexible or measures its own size"
    animatable := .fully },
  {
    name := "max-height"
    grammar := some "<length> | none"
    description := "Maximum height for an element, when it is flexible or measures its own size"
    animatable := .fully },
  {
    name := "margin"
    grammar := some "<length>"
    description := "Shorthand for margin-top, margin-right, margin-bottom, margin-left"
    animatable := .fully },
  {
    name := "margin-top"
    grammar := some "<length>"
    description := "Space reserved for the top edge of the margin during the layout phase"
    animatable := .fully },
  {
    name := "margin-right"
    grammar := some "<length>"
    description := "Space reserved for the right edge of the margin during the layout phase"
    animatable := .fully },
  {
    name := "margin-bottom"
    grammar := some "<length>"
    description := "Space reserved for the bottom edge of the margin during the layout phase"
    animatable := .fully },
  {
    name := "margin-left"
    grammar := some "<length>"
    description := "Space reserved for the left edge of the margin during the layout phase"
    animatable := .fully },
  {
    name := "padding"
    grammar := some "<length>"
    description := "Shorthand for padding-top, padding-right, padding-bottom, padding-left"
    animatable := .fully },
  {
    name := "padding-top"
    grammar := some "<length>"
    description := "Space reserved for the top edge of the padding during the layout phase"
    animatable := .fully },
  {
    name := "padding-right"
    grammar := some "<length>"
    description := "Space reserved for the right edge of the padding during the layout phase"
    animatable := .fully },
  {
    name := "padding-bottom"
    grammar := some "<length>"
    description := "Space reserved for the bottom edge of the padding during the layout phase"
    animatable := .fully },
  {
    name := "padding-left"
    grammar := some "<length>"
    description := "Space reserved for the left edge of the padding during the layout phase"
    animatable := .fully },
  {
    name := "border-width"
    grammar := some "<length>"
    description := "Shorthand for border-top-width, border-right-width, border-bottom-width, border-left-width"
    animatable := .fully },
  {
    name := "border-top-width"
    grammar := some "<length>"
    description := "Space reserved for the top edge of the border during the layout phase"
    animatable := .fully },
  {
    name := "border-right-width"
    grammar := some "<length>"
    description := "Space reserved for the right edge of the border during the layout phase"
    animatable := .fully },
  {
    name := "border-bottom-width"
    grammar := some "<length>"
    description := "Space reserved for the bottom edge of the border during the layout phase"
    animatable := .fully },
  {
    name := "border-left-width"
    grammar := some "<length>"
    description := "Space reserved for the left edge of the border during the layout phase"
    animatable := .fully },
  {
    name := "border-color"
    grammar := some "<color>"
    description := "Shorthand for border-top-color, border-right-color, border-bottom-color, border-left-color"
    animatable := .fully },
  {
    name := "border-top-color"
    grammar := some "<color>"
    description := "Color of the element's top border"
    animatable := .fully },
  {
    name := "border-right-color"
    grammar := some "<color>"
    description := "Color of the element's right border"
    animatable := .fully },
  {
    name := "border-bottom-color"
    grammar := some "<color>"
    description := "Color of the element's bottom border"
    animatable := .fully },
  {
    name := "border-left-color"
    grammar := some "<color>"
    description := "Color of the element's left border"
    animatable := .fully },
  {
    name := "border-radius"
    grammar := some "<length>"
    description := "Shorthand for border-top-left-radius, border-top-right-radius, border-bottom-right-radius, border-bottom-left-radius"
    animatable := .fully },
  {
    name := "border-top-left-radius"
    grammar := some "<length>"
    description := "The radius of the top-left corner when a rounded rectangle is drawn in the element's box"
    animatable := .fully },
  {
    name := "border-top-right-radius"
    grammar := some "<length>"
    description := "The radius of the top-right corner when a rounded rectangle is drawn in the element's box"
    animatable := .fully },
  {
    name := "border-bottom-right-radius"
    grammar := some "<length>"
    description := "The radius of the bottom-right corner when a rounded rectangle is drawn in the element's box"
    animatable := .fully },
  {
    name := "border-bottom-left-radius"
    grammar := some "<length>"
    description := "The radius of the bottom-left corner when a rounded rectangle is drawn in the element's box"
    animatable := .fully }]

/-- Placement and visibility. -/
def placementProperties : List Definition := [
  {
    name := "position"
    grammar := some "absolute | relative"
    description := "Element's positioning in its parent container"
    animatable := .discrete
    keywords := some ["absolute", "relative"]
    keywordDocs := [
        ("absolute", "Element is positioned absolutely relative to its parent"),
        ("relative", "Element is positioned relative to its normal position")] },
  {
    name := "left"
    grammar := some "<length> | auto"
    description := "Left distance from the element's box during layout"
    animatable := .fully },
  {
    name := "top"
    grammar := some "<length> | auto"
    description := "Top distance from the element's box during layout"
    animatable := .fully },
  {
    name := "right"
    grammar := some "<length> | auto"
    description := "Right distance from the element's box during layout"
    animatable := .fully },
  {
    name := "bottom"
    grammar := some "<length> | auto"
    description := "Bottom distance from the element's box during layout"
    animatable := .fully },
  {
    name := "display"
    grammar := some "flex | none"
    description := "Defines how an element is displayed in the layout"
    animatable := .never
    keywords := some ["flex", "none"]
    keywordDocs := [
        ("flex", "Element participates in flex layout"),
        ("none", "Element is not displayed and takes no space")] },
  {
    name := "visibility"
    grammar := some "visible | hidden"
    description := "Specifies whether or not an element is visible"
    inherited := true
    animatable := .discrete
    keywords := some ["visible", "hidden"]
    keywordDocs := [
        ("hidden", "Element is hidden but still takes space in layout"),
        ("visible", "Element is visible")] },
  {
    name := "overflow"
    grammar := some "visible | hidden"
    description := "How a container behaves if its content overflows its own box"
    animatable := .discrete
    keywords := some ["visible", "hidden"]
    keywordDocs := [
        ("hidden", "Content is clipped to the element bounds"),
        ("visible", "Content is not clipped and may overflow the element bounds")] },
  {
    name := "opacity"
    grammar := some "<number>"
    description := "Specifies the transparency of an element and of its children"
    animatable := .fully },
  {
    name := "cursor"
    grammar := some "auto | default | none | text | resize-vertical | resize-horizontal | link | slide-arrow | resize-up-right | resize-up-left | move-arrow | rotate-arrow | scale-arrow | arrow-plus | arrow-minus | pan | orbit | zoom | fps | split-resize-up-down | split-resize-left-right"
    description := "Mouse cursor to display when the mouse pointer is over an element"
    animatable := .never
    keywords := some [
        "auto", "default", "none", "text", "resize-vertical", "resize-horizontal", "link",
        "slide-arrow", "resize-up-right", "resize-up-left", "move-arrow", "rotate-arrow",
        "scale-arrow", "arrow-plus", "arrow-minus", "pan", "orbit", "zoom", "fps",
        "split-resize-up-down", "split-resize-left-right"] },
  {
    name := "all"
    grammar := some "initial"
    description := "Allows resetting all properties with the initial keyword. Does not apply to custom USS properties"
    animatable := .fully
    keywords := some ["initial"] }]

/-- Flexible layout. -/
def flexProperties : List Definition := [
  {
    name := "flex-direction"
    grammar := some "row | row-reverse | column | column-reverse"
    description := "Direction of the main axis to layout children in a container"
    animatable := .discrete
    keywords := some ["row", "row-reverse", "column", "column-reverse"]
    keywordDocs := [
        ("column", "Items are placed in a column (vertical)"),
        ("column-reverse", "Items are placed in a column in reverse order"),
        ("row", "Items are placed in a row (horizontal)"),
        ("row-reverse", "Items are placed in a row in reverse order")] },
  {
    name := "flex-wrap"
    grammar := some "nowrap | wrap | wrap-reverse"
    description := "Placement of children over multiple lines if not enough space is available in this container"
    animatable := .discrete
    keywords := some ["nowrap", "wrap", "wrap-reverse"] },
  {
    name := "justify-content"
    grammar := some "flex-start | flex-end | center | space-between | space-around"
    description := "Justification of children on the main axis of this container"
    animatable := .discrete
    keywords := some ["flex-start", "flex-end", "center", "space-between", "space-around"]
    keywordDocs := [
        ("center", "Items are centered along the line"),
        ("flex-end", "Items are packed toward the end of the flex-direction"),
        ("flex-start", "Items are packed toward the start of the flex-direction"),
        ("space-around", "Items are evenly distributed with equal space around them"),
        ("space-between", "Items are evenly distributed with first item at start and last at end")] },
  {
    name := "align-items"
    grammar := some "auto | flex-start | flex-end | center | stretch"
    description := "Alignment of children on the cross axis of this container"
    animatable := .discrete
    keywords := some ["auto", "flex-start", "flex-end", "center", "stretch"]
    keywordDocs := [
        ("auto", "Uses the parent's align-items value or stretch if no parent"),
        ("center", "Items are centered on the cross axis"),
        ("flex-end", "Items are placed at the end of the cross axis"),
        ("flex-start", "Items are placed at the start of the cross axis"),
        ("stretch", "Items are stretched to fill the container")] },
  {
    name := "align-content"
    grammar := some "flex-start | flex-end | center | stretch"
    description := "Alignment of the whole area of children on the cross axis if they span over multiple lines in this container"
    animatable := .discrete
    keywords := some ["flex-start", "flex-end", "center", "stretch"] },
  {
    name := "align-self"
    grammar := some "auto | flex-start | flex-end | center | stretch"
    description := "Similar to align-items, but only for this specific element"
    animatable := .discrete
    keywords := some ["auto", "flex-start", "flex-end", "center", "stretch"] },
  {
    name := "flex-grow"
    grammar := some "<number>"
    description := "Specifies how the item will grow relative to the rest of the flexible items inside the same container"
    animatable := .fully },
  {
    name := "flex-shrink"
    grammar := some "<number>"
    description := "Specifies how the item will shrink relative to the rest of the flexible items inside the same container"
    animatable := .fully },
  {
    name := "flex-basis"
    grammar := some "<length> | auto"
    description := "Initial main size of a flex item, on the main flex axis"
    animatable := .fully
    keywords := some ["auto"] },
  {
    name := "flex"
    grammar := some "<number> <number> <length>"
    description := "Shorthand for flex-grow, flex-shrink, flex-basis"
    animatable := .fully }]

/-- Backgrounds. -/
def backgroundProperties : List Definition := [
  {
    name := "background-color"
    grammar := some "<color>"
    description := "Background color to paint in the element's box"
    animatable := .fully },
  {
    name := "background-image"
    grammar := some "<resource> | <url> | none"
    description := "Background image to paint in the element's box"
    animatable := .discrete
    keywords := some ["none"] },
  {
    name := "background-position"
    grammar := some "<length> <length> | <percentage> <percentage>"
    description := "Background image position value"
    animatable := .fully },
  {
    name := "background-position-x"
    grammar := some "<length> | <percentage>"
    description := "Background image x position value"
    animatable := .discrete },
  {
    name := "background-position-y"
    grammar := some "<length> | <percentage>"
    description := "Background image y position value"
    animatable := .discrete },
  {
    name := "background-repeat"
    grammar := some "no-repeat | repeat | repeat-x | repeat-y | space | round"
    description := "Background image repeat value"
    animatable := .discrete
    keywords := some ["no-repeat", "repeat", "repeat-x", "repeat-y", "space", "round"] },
  {
    name := "background-size"
    grammar := some "<length> <length> | <percentage> <percentage> | auto | cover | contain"
    description := "Background image size value"
    animatable := .fully
    keywords := some ["auto", "cover", "contain"] }]

/-- Text. -/
def textProperties : List Definition := [
  {
    name := "color"
    grammar := some "<color>"
    description := "Color to use when drawing the text of an element"
    inherited := true
    animatable := .fully },
  {
    name := "font-size"
    grammar := some "<number>"
    description := "Font size to draw the element's text, specified in point size"
    inherited := true
    animatable := .fully },
  {
    name := "white-space"
    grammar := some "normal | nowrap"
    description := "Word wrap over multiple lines if not enough space is available to draw the text of an element"
    inherited := true
    animatable := .discrete
    keywords := some ["normal", "nowrap"] },
  {
    name := "letter-spacing"
    grammar := some "<length>"
    description := "Increases or decreases the space between characters"
    inherited := true
    animatable := .fully },
  {
    name := "word-spacing"
    grammar := some "<length>"
    description := "Increases or decreases the space between words"
    inherited := true
    animatable := .fully },
  {
    name := "text-overflow"
    grammar := some "clip | ellipsis"
    description := "The element's text overflow mode"
    animatable := .discrete
    keywords := some ["clip", "ellipsis"] },
  {
    name := "text-shadow"
    grammar := some "<length> <length> <length> <color>"
    description := "Drop shadow of the text"
    inherited := true
    animatable := .fully }]

/-- Transforms and transitions. -/
def motionProperties : List Definition := [
  {
    name := "rotate"
    grammar := some "<angle>"
    description := "A rotation transformation"
    animatable := .fully },
  {
    name := "scale"
    grammar := some "<number> <number>"
    description := "A scaling transformation"
    animatable := .fully },
  {
    name := "translate"
    grammar := some "<length> <length>"
    description := "A translate transformation"
    animatable := .fully },
  {
    name := "transform-origin"
    grammar := some "<length> <length> | <percentage> <percentage>"
    description := "The transformation origin is the point around which a transformation is applied"
    animatable := .fully },
  {
    name := "transition"
    grammar := some "<property> <duration> <timing-function> <delay>"
    description := "Shorthand for transition-delay, transition-duration, transition-property, transition-timing-function"
    animatable := .never },
  {
    name := "transition-delay"
    grammar := some "<time>"
    description := "Duration to wait before starting a property's transition effect when its value changes"
    animatable := .never },
  {
    name := "transition-duration"
    grammar := some "<time>"
    description := "Time a transition animation should take to complete"
    animatable := .never },
  {
    name := "transition-property"
    grammar := some "none | all | <property>"
    description := "Properties to which a transition effect should be applied"
    animatable := .never },
  {
    name := "transition-timing-function"
    grammar := some "ease | linear | ease-in | ease-out | ease-in-out | step-start | step-end | steps(<integer>, <jump-term>) | cubic-bezier(<number>, <number>, <number>, <number>)"
    description := "Determines how intermediate values are calculated for properties modified by a transition effect"
    animatable := .never
    keywords := some [
        "ease", "linear", "ease-in", "ease-out", "ease-in-out", "step-start", "step-end",
        "cubic-bezier"] }]

/-- Properties without a counterpart outside of Unity. -/
def unityProperties : List Definition := [
  {
    name := "-unity-font"
    grammar := some "<resource> | <url>"
    description := "Font to draw the element's text, defined as a Font object"
    inherited := true
    animatable := .discrete
    unitySpecific := true },
  {
    name := "-unity-font-definition"
    grammar := some "<resource> | <url>"
    description := "Font to draw the element's text, defined as a FontDefinition structure. Takes precedence over -unity-font"
    inherited := true
    animatable := .discrete
    unitySpecific := true },
  {
    name := "-unity-font-style"
    grammar := some "normal | italic | bold | bold-and-italic"
    description := "Font style and weight to draw the element's text"
    inherited := true
    animatable := .discrete
    unitySpecific := true
    keywords := some ["normal", "italic", "bold", "bold-and-italic"] },
  {
    name := "-unity-text-align"
    grammar := some "upper-left | middle-left | lower-left | upper-center | middle-center | lower-center | upper-right | middle-right | lower-right"
    description := "Horizontal and vertical text alignment in the element's box"
    inherited := true
    animatable := .discrete
    unitySpecific := true
    keywords := some [
        "upper-left", "middle-left", "lower-left", "upper-center", "middle-center",
        "lower-center", "upper-right", "middle-right", "lower-right"]
    keywordDocs := [
        ("lower-center", "Text is aligned to the lower-center"),
        ("lower-left", "Text is aligned to the lower-left corner"),
        ("lower-right", "Text is aligned to the lower-right corner"),
        ("middle-center", "Text is centered"),
        ("middle-left", "Text is aligned to the middle-left"),
        ("middle-right", "Text is aligned to the middle-right"),
        ("upper-center", "Text is aligned to the upper-center"),
        ("upper-left", "Text is aligned to the upper-left corner"),
        ("upper-right", "Text is aligned to the upper-right corner")] },
  {
    name := "-unity-text-outline-width"
    grammar := some "<length>"
    description := "Outline width of the text"
    inherited := true
    animatable := .fully
    unitySpecific := true },
  {
    name := "-unity-text-outline-color"
    grammar := some "<color>"
    description := "Outline color of the text"
    inherited := true
    animatable := .fully
    unitySpecific := true },
  {
    name := "-unity-background-scale-mode"
    grammar := some "stretch-to-fill | scale-and-crop | scale-to-fit"
    description := "Background image scaling in the element's box"
    animatable := .discrete
    unitySpecific := true
    keywords := some ["stretch-to-fill", "scale-and-crop", "scale-to-fit"] },
  {
    name := "-unity-background-image-tint-color"
    grammar := some "<color>"
    description := "Tinting color for the element's backgroundImage"
    animatable := .fully
    unitySpecific := true },
  {
    name := "-unity-editor-text-rendering-mode"
    grammar := some "legacy | advanced"
    description := "TextElement editor rendering mode"
    inherited := true
    animatable := .never
    unitySpecific := true
    keywords := some ["legacy", "advanced"] },
  {
    name := "-unity-overflow-clip-box"
    grammar := some "padding-box | content-box"
    description := "Specifies which box the element content is clipped against"
    animatable := .discrete
    unitySpecific := true
    keywords := some ["padding-box", "content-box"] },
  {
    name := "-unity-paragraph-spacing"
    grammar := some "<length>"
    description := "Increases or decreases the space between paragraphs"
    inherited := true
    animatable := .fully
    unitySpecific := true },
  {
    name := "-unity-slice-bottom"
    grammar := some "<integer>"
    description := "Size of the 9-slice's bottom edge when painting an element's background image"
    animatable := .fully
    unitySpecific := true },
  {
    name := "-unity-slice-left"
    grammar := some "<integer>"
    description := "Size of the 9-slice's left edge when painting an element's background image"
    animatable := .fully
    unitySpecific := true },
  {
    name := "-unity-slice-right"
    grammar := some "<integer>"
    description := "Size of the 9-slice's right edge when painting an element's background image"
    animatable := .fully
    unitySpecific := true },
  {
    name := "-unity-slice-scale"
    grammar := some "<number>"
    description := "Scale applied to an element's slices"
    animatable := .fully
    unitySpecific := true },
  {
    name := "-unity-slice-top"
    grammar := some "<integer>"
    description := "Size of the 9-slice's top edge when painting an element's background image"
    animatable := .fully
    unitySpecific := true },
  {
    name := "-unity-slice-type"
    grammar := some "stretch | tile"
    description := "Specifies the type of slicing"
    animatable := .discrete
    unitySpecific := true
    keywords := some ["stretch", "tile"] },
  {
    name := "-unity-text-generator"
    grammar := some "legacy | advanced"
    description := "Switches between Unity's standard and advanced text generator"
    inherited := true
    animatable := .never
    unitySpecific := true
    keywords := some ["legacy", "advanced"] },
  {
    name := "-unity-text-outline"
    grammar := some "<length> <color>"
    description := "Outline width and color of the text"
    animatable := .fully
    unitySpecific := true },
  {
    name := "-unity-text-overflow-position"
    grammar := some "start | middle | end"
    description := "The element's text overflow position"
    animatable := .discrete
    unitySpecific := true
    keywords := some ["start", "middle", "end"] }]

/-- The built-in property file. -/
def builtin : PropertyFile where
  knowledge := some ⟨"uss", some "6.1", some "Unity UI Toolkit style sheet properties"⟩
  properties := boxProperties ++ placementProperties ++ flexProperties ++ backgroundProperties ++
    textProperties ++ motionProperties ++ unityProperties

end PropertyFile

/-- The registry that holds the built-in properties alone. -/
def Registry.builtin : Registry := Registry.empty.addFile PropertyFile.builtin

end StyleServer
