/-
  Paths of files as they are written.

  A path is kept byte by byte, because nothing makes its bytes a text.  Slashes
  part its names; those that are empty or `.` lead nowhere, and `..` leads up.
-/
import StyleServer.Text.Bytes

namespace StyleServer

/-- A name in a path. -/
abbrev FileName := List UInt8

namespace FileName

/-- The name of a directory inside itself. -/
def dot : FileName := [0x2E]

/-- The name of the directory above. -/
def dotDot : FileName := [0x2E, 0x2E]

/-- The name as a text, if it is one. -/
def text? (name : FileName) : Option String :=
  let text := decodeUtf8 name
  if Text.bytes text = name then some (String.ofList text) else none

end FileName

/-- A path as written. -/
structure WrittenPath where
  bytes : List UInt8
deriving DecidableEq

namespace WrittenPath

/-- The byte that parts names. -/
def slash : UInt8 := 0x2F

/-- The path that a text writes. -/
def ofText (text : String) : WrittenPath := ⟨Text.bytes text.toList⟩

/-- The path as a text, with U+FFFD for bytes that are none. -/
def text (p : WrittenPath) : String := String.ofList (decodeUtf8 p.bytes)

/-- The path begins at the root. -/
def isAbsolute (p : WrittenPath) : Bool := p.bytes.head? = some slash

/-- The path ends with a slash. -/
def endsInSlash (p : WrittenPath) : Bool := p.bytes.getLast? = some slash

/-- What stands between the slashes. -/
def parts : List UInt8 → List FileName
  | [] => [[]]
  | b :: bytes =>
    let rest := parts bytes
    if b = slash then [] :: rest
    else match rest with
      | [] => [[b]]
      | name :: names => (b :: name) :: names

/-- The names of a path, without empty ones. -/
def names (p : WrittenPath) : List FileName := (parts p.bytes).filter (!·.isEmpty)

/-- The path of a name in the directory that a path leads to. -/
def join (p : WrittenPath) (name : String) : WrittenPath :=
  let name := Text.bytes name.toList
  ⟨if p.endsInSlash then p.bytes ++ name else p.bytes ++ slash :: name⟩

end WrittenPath

end StyleServer
