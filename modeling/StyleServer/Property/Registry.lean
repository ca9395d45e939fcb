/-
  The registry of known properties.

  A registry is filled from property files, one after another.  A later
  definition takes the place of an earlier one of the same name, and a later
  version that of an earlier one.  Definitions are kept in the order of their
  names, each name once.
-/
import StyleServer.Property.Definition

namespace StyleServer

/-- What a property file says about itself. -/
structure KnowledgeInfo where
  name : String
  version : Option String
  description : Option String
deriving DecidableEq

/-- The content of a property file. -/
structure PropertyFile where
  knowledge : Option KnowledgeInfo
  properties : List Definition
deriving DecidableEq

/-- The definitions known, in the order of their names. -/
structure Registry where
  definitions : List Definition
  version : Option String
deriving DecidableEq

namespace Registry

/-- Nothing is known. -/
def empty : Registry := ⟨[], none⟩

/-- A list ordered by name with a definition put into its place, where it replaces
    one of the same name. -/
def insertInto (d : Definition) : List Definition → List Definition
  | [] => [d]
  | e :: es =>
    if d.name < e.name then d :: e :: es
    else if d.name = e.name then d :: es
    else e :: insertInto d es

/-- With one more definition. -/
def insert (r : Registry) (d : Definition) : Registry :=
  { r with definitions := insertInto d r.definitions }

/-- With the content of a property file. -/
def addFile (r : Registry) (file : PropertyFile) : Registry :=
  file.properties.foldl insert
    { r with version := (file.knowledge.bind (·.version)).or r.version }

/-- The definition of a name. -/
def find? (r : Registry) (name : String) : Option Definition :=
  r.definitions.find? (·.name == name)

/-- A property of that name is known. -/
def knows (r : Registry) (name : String) : Bool := (r.find? name).isSome

/-- Number of known properties. -/
def size (r : Registry) : Nat := r.definitions.length

/-- Names of the known properties, in order. -/
def names (r : Registry) : List String := r.definitions.map (·.name)

/-- The closed set of values of a property, if it has one. -/
def keywords? (r : Registry) (name : String) : Option (List String) :=
  (r.find? name).bind (·.keywords)

end Registry

end StyleServer
