/-
  Definitions of style properties.

  A definition says what is known of a property: its documentation, and the
  closed set of keywords it takes when it takes nothing else.
-/
import StyleServer.Text.Utf8

namespace StyleServer

/-- How a property behaves under transitions. -/
inductive Animatable where
  | fully
  | discrete
  | never
deriving DecidableEq

/-- The text shown for a behaviour. -/
def Animatable.label : Animatable → String
  | fully => "Fully animatable"
  | discrete => "Discrete"
  | never => "Not animatable"

/-- What is known of a style property. -/
structure Definition where
  name : String
  /-- The grammar of its values, as shown to a reader. -/
  grammar : Option String := none
  description : String
  inherited : Bool := false
  animatable : Animatable := .never
  /-- It has no counterpart outside of Unity. -/
  unitySpecific : Bool := false
  /-- The closed set of its values. -/
  keywords : Option (List String) := none
  /-- Descriptions of single keywords. -/
  keywordDocs : List (String × String) := []
deriving DecidableEq

/-- `needle` occurs in a text. -/
def Text.occursIn (needle : Text) : Text → Bool
  | [] => needle.isEmpty
  | c :: cs => needle.isPrefixOf (c :: cs) || occursIn needle cs

namespace Definition

/-- A value is in the closed set, or there is none. -/
def accepts (d : Definition) (value : String) : Bool :=
  match d.keywords with
  | some keywords => keywords.contains value
  | none => true

/-- The description of a keyword, for a reader. -/
def keywordDocumentation? (d : Definition) (keyword : String) : Option String :=
  (d.keywordDocs.lookup keyword).map fun description => "`" ++ keyword ++ "`\n\n" ++ description

/-- The grammar mentions a data type such as `length`. -/
def acceptsType (d : Definition) (dataType : String) : Bool :=
  match d.grammar with
  | some grammar => Text.occursIn ("<" ++ dataType ++ ">").toList grammar.toList
  | none => false

/-- The properties named at the end of the documentation. -/
def flags (d : Definition) : List String :=
  [d.animatable.label] ++ (if d.inherited then ["Inherited"] else []) ++
    (if d.unitySpecific then ["Unity-specific"] else [])

/-- The documentation, for a reader. -/
def documentation (d : Definition) : String :=
  "**" ++ d.name ++ "**\n\n" ++ d.description ++
    (d.grammar.elim "" fun grammar => "\n\n**Syntax:** `" ++ grammar ++ "`") ++
    (d.keywords.elim "" fun keywords => "\n\n**Values:** " ++ " | ".intercalate keywords) ++
    "\n\n*" ++ " · ".intercalate d.flags ++ "*"

end Definition

end StyleServer
