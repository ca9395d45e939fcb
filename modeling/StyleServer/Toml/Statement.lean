/-
  Statements of TOML: headers, and keys with their values.

  A value is read with a bound on the number of steps, one for each character;
  every step takes at least one, so the bound is never met.  Values nest at most
  eighty deep, and a key has at most eighty names.
-/
import StyleServer.Toml.Quoted

namespace StyleServer

namespace Toml

/-- A key as written: the names between its dots. -/
abbrev Key := List String

/-- How deep values nest, and how many names a key has, at most. -/
def deepest : Nat := 80

/-- A statement. -/
inductive Statement where
  | header (key : Key)
  | arrayHeader (key : Key)
  | pair (key : Key) (value : Toml)

/-! ## Adding to tables -/

/-- How to go on at the table that a key leads to. -/
abbrev Change := Entries → Option Entries

/-- The tables of an array after a change of the last. -/
def changeLast (change : Change) (items : List Toml) : Option (List Toml) :=
  match items.getLast? with
  | some (.table kind inner) => do return items.dropLast ++ [.table kind (← change inner)]
  | _ => none

/-- The entries after a change at the table that the path of a header leads to.  Missing
    tables are made on the way, and an array of tables leads to its last.  A path cannot
    pass through a value, an inline table or an array of values. -/
def changeAt (change : Change) : Key → Change
  | [], entries => change entries
  | key :: path, entries =>
    match entries.lookup key with
    | none => do return put key (.table .passed (← changeAt change path [])) entries
    | some (.table kind inner) =>
      if kind = .inline then none
      else do return put key (.table kind (← changeAt change path inner)) entries
    | some (.array true items) => do
      return put key (.array true (← changeLast (changeAt change path) items)) entries
    | some _ => none

/-- The entries after a change at the table that the path of a dotted key leads to.
    Missing tables are made on the way.  A table that has a header, or is one of an
    array, is not added to, and the table at the end counts as made by dotted keys. -/
def changeDotted (change : Change) : Key → Change
  | [], entries => change entries
  | key :: path, entries =>
    match entries.lookup key with
    | none => do return put key (.table .dotted (← changeDotted change path [])) entries
    | some (.table kind inner) =>
      if kind = .passed ∨ kind = .dotted then do
        let kind := if path.isEmpty then .dotted else kind
        return put key (.table kind (← changeDotted change path inner)) entries
      else none
    | some (.array true items) =>
      if path.isEmpty then none
      else do return put key (.array true (← changeLast (changeDotted change path) items)) entries
    | some _ => none

/-- Adds a value under a name that is not taken. -/
def addNew (name : String) (value : Toml) : Change := fun entries =>
  if (entries.lookup name).isSome then none else some (put name value entries)

/-- The entries with the value of a key, which is not taken. -/
def addPair (key : Key) (value : Toml) (entries : Entries) : Option Entries := do
  changeDotted (addNew (← key.getLast?) value) key.dropLast entries

/-! ## Reading -/

/-- Reads from the front of a text, and leaves the rest. -/
abbrev Reader := StateT Text Option

/-- Takes a character when it is next. -/
def accept (c : Char) : Reader Bool := do
  match ← get with
  | d :: rest => if c = d then do set rest; return true else return false
  | [] => return false

/-- Takes a character that must be next. -/
def expect (c : Char) : Reader Unit := do
  unless ← accept c do failure

/-- Drops the spaces and tabs that come next. -/
def skipSpaces : Reader Unit := modify fun text => text.dropWhile isSpace

/-- Drops a comment when one is next, up to the line end. -/
def skipComment : Reader Unit := do
  match ← get with
  | '#' :: text =>
    let rest := text.dropWhile isPlain
    if rest.isEmpty ∨ (lineEnd? rest).isSome then set rest else failure
  | _ => return ()

/-- Drops the blanks, comments and line ends in front of a text. -/
def skipGap : Nat → Reader Unit
  | 0 => return ()
  | fuel + 1 => do
    skipSpaces
    skipComment
    match lineEnd? (← get) with
    | some rest => do
      set rest
      skipGap fuel
    | none => return ()

/-- Drops the blanks, comments and line ends that come next. -/
def skipLinesAndComments : Reader Unit := do skipGap ((← get).length + 1)

/-- A character of an unquoted name. -/
def isNameChar (c : Char) : Bool := c.isAlphanum || c == '_' || c == '-'

/-- A name between the dots of a key. -/
def readName : Reader String := do
  match ← get with
  | '"' :: _ | '\'' :: _ => do
    let (content, rest) ← quotedLine? (← get)
    set rest
    return String.ofList content
  | text => do
    let name := text.takeWhile isNameChar
    if name.isEmpty then failure
    set (text.dropWhile isNameChar)
    return String.ofList name

/-- At most so many names of a key from the next one on, with the blanks behind it. -/
def readNames : Nat → Reader Key
  | 0 => failure
  | fuel + 1 => do
    skipSpaces
    let name ← readName
    skipSpaces
    if ← accept '.' then return name :: (← readNames fuel) else return [name]

/-- A key, with the blanks around it. -/
def readKey : Reader Key := readNames deepest

mutual

/-- A value below `depth` more levels. -/
def readValue (depth : Nat) : Nat → Reader Toml
  | 0 => failure
  | fuel + 1 => do
    match ← get with
    | '"' :: _ | '\'' :: _ => do
      let (content, rest) ← quoted? (← get)
      set rest
      return .string (String.ofList content)
    | '[' :: rest => do
      if depth = 0 then failure
      set rest
      return .array false (← readItems (depth - 1) fuel)
    | '\x7b' :: rest => do
      if depth = 0 then failure
      set rest
      return .table .inline (← readPairs (depth - 1) fuel [])
    | text => do
      let (run, rest) := unquotedRun text
      set rest
      ofRun? run

/-- The items of an array up to its closing bracket. -/
def readItems (depth : Nat) : Nat → Reader (List Toml)
  | 0 => failure
  | fuel + 1 => do
    skipLinesAndComments
    if ← accept ']' then return []
    let item ← readValue depth fuel
    skipLinesAndComments
    if ← accept ',' then return item :: (← readItems depth fuel)
    expect ']'
    return [item]

/-- The entries of an inline table, of which some are there, up to its closing brace. -/
def readPairs (depth : Nat) : Nat → Entries → Reader Entries
  | 0, _ => failure
  | fuel + 1, entries => do
    skipLinesAndComments
    if ← accept '\x7d' then return entries
    let key ← readKey
    skipLinesAndComments
    expect '='
    skipLinesAndComments
    let value ← readValue depth fuel
    let entries ← addPair key value entries
    skipLinesAndComments
    if ← accept ',' then readPairs depth fuel entries
    else do
      expect '\x7d'
      return entries

end

/-- The statement that comes next. -/
def readStatement : Reader Statement := do
  if ← accept '[' then
    if ← accept '[' then
      let key ← readKey
      expect ']'
      expect ']'
      return .arrayHeader key
    else
      let key ← readKey
      expect ']'
      return .header key
  else
    let key ← readKey
    expect '='
    skipSpaces
    return .pair key (← readValue deepest ((← get).length + 1))

/-- Takes the rest of a line, which holds at most a comment. -/
def endLine : Reader Unit := do
  skipSpaces
  skipComment
  match ← get with
  | [] => return ()
  | text => set (← lineEnd? text)

/-- The statements up to the end of the text; `fuel` bounds their number. -/
def readStatements : Nat → Reader (List Statement)
  | 0 => failure
  | fuel + 1 => do
    skipLinesAndComments
    if (← get).isEmpty then return []
    let statement ← readStatement
    endLine
    return statement :: (← readStatements fuel)

/-- The statements of a text, which may begin with a byte order mark. -/
def statements? (text : Text) : Option (List Statement) :=
  let text := match text with
    | '\ufeff' :: rest => rest
    | _ => text
  (readStatements (text.length + 1) text).map (·.1)

end Toml

end StyleServer
