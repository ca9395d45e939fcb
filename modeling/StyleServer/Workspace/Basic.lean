/-
  The documents of an editor's workspace.

  A document that is open in the editor is read from its buffer; any other is
  read from the disk, and what has been read once is kept until it is
  invalidated or the root changes.  The watch over the disk is not modelled:
  a change that it sees is an `invalidate`, at any time.
-/
import StyleServer.Config.Settings
import StyleServer.Disk.Listing
import StyleServer.Search.Find

namespace StyleServer

/-- A list of values under keys. -/
abbrev Table (κ ν : Type) := List (κ × ν)

namespace Table

variable {κ ν : Type} [DecidableEq κ]

/-- Without a key. -/
def erase (t : Table κ ν) (k : κ) : Table κ ν := t.filter (·.1 ≠ k)

/-- With a value under a key. -/
def insert (t : Table κ ν) (k : κ) (v : ν) : Table κ ν := (k, v) :: Table.erase t k

theorem lookup_cons (t : Table κ ν) (k l : κ) (v : ν) :
    List.lookup l ((k, v) :: t) = if l = k then some v else List.lookup l t := by
  rw [List.lookup_cons]
  by_cases hl : l = k
  · rw [if_pos hl, beq_iff_eq.2 hl]
  · rw [if_neg hl, beq_eq_false_iff_ne.2 hl]

@[simp] theorem lookup_erase (t : Table κ ν) (k l : κ) :
    (Table.erase t k).lookup l = if l = k then none else t.lookup l := by
  induction t with
  | nil => simp [Table.erase]
  | cons entry t ih =>
    obtain ⟨m, v⟩ := entry
    rw [Table.erase] at ih ⊢
    by_cases hm : m = k
    · rw [List.filter_cons_of_neg (by simpa using hm), ih, lookup_cons, hm]
      split <;> rfl
    · rw [List.filter_cons_of_pos (by simpa using hm), lookup_cons, lookup_cons, ih]
      by_cases hl : l = m
      · rw [if_pos hl, if_pos hl, if_neg (hl ▸ hm)]
      · rw [if_neg hl, if_neg hl]

@[simp] theorem lookup_insert (t : Table κ ν) (k l : κ) (v : ν) :
    (Table.insert t k v).lookup l = if l = k then some v else t.lookup l := by
  rw [Table.insert, lookup_cons, lookup_erase]
  split <;> rfl

end Table

/-- A document that is open in the editor.  Layout markup has no sheet. -/
structure Buffer where
  text : String
  sheet : Option Sheet
  version : Option Int
deriving DecidableEq

/-- The buffer of a text at a URL. -/
def Buffer.of (u : Url) (text : String) (version : Option Int) : Buffer :=
  ⟨text, if u.isMarkup then none else some (Sheet.parse text), version⟩

/-- A workspace. -/
structure Workspace where
  root : Option WrittenPath := none
  settings : WorkspaceSettings := {}
  buffers : Table Url Buffer := []
  /-- Texts that have been read from the disk. -/
  cache : Table Url String := []
deriving DecidableEq

/-- Why a document cannot be read. -/
inductive DocumentError where
  | notAFile (url : String)
  | unreadable (path : String)
deriving DecidableEq

/-- The wording of a failure. -/
def DocumentError.message : DocumentError → String
  | notAFile url => "Not a file URI: " ++ url
  | unreadable path => "Failed to read stylesheet: " ++ path

/-- Why documents cannot be listed. -/
inductive ListError where
  | invalidPattern (pattern : String)
deriving DecidableEq

/-- The wording of a failure. -/
def ListError.message : ListError → String
  | invalidPattern pattern => "Invalid workspace pattern: " ++ pattern

namespace Workspace

/-- With another root, and nothing kept. -/
def setRoot (w : Workspace) (root : Option WrittenPath) : Workspace :=
  { w with root := root, cache := [] }

/-- The root as the URL of a directory. -/
def rootUrl? (w : Workspace) : Option Url := w.root.map Url.ofDirectory

/-- With a buffer. -/
def openBuffer (w : Workspace) (u : Url) (b : Buffer) : Workspace :=
  { w with buffers := Table.insert w.buffers u b }

/-- Without a buffer. -/
def closeBuffer (w : Workspace) (u : Url) : Workspace :=
  { w with buffers := Table.erase w.buffers u }

/-- Forgets what has been read of a document. -/
def invalidate (w : Workspace) (u : Url) : Workspace := { w with cache := Table.erase w.cache u }

/-- The documents that match a pattern: those open, and those on the disk that are not
    excluded. -/
def list (w : Workspace) (d : Disk) (pattern : String) : Except ListError (List Url) :=
  let opened := (w.buffers.map (·.1)).filter (·.matchesGlob pattern)
  let onDisk := match w.root with
    | none => some []
    | some root => d.listing? root pattern w.settings.exclude
  match onDisk with
  | none => .error (.invalidPattern pattern)
  | some files => .ok ((opened ++ files).mergeSort Url.le).eraseReps

/-- The text of the file that a URL names. -/
def readFile (d : Disk) (u : Url) : Except DocumentError String :=
  match u.filePath? with
  | none => .error (.notAFile u.text)
  | some path =>
    match (d.resolve [] path).bind d.read with
    | .ok text => .ok text
    | .error _ => .error (.unreadable path.text)

/-- The text of a document, and the workspace that has read it. -/
def read (w : Workspace) (d : Disk) (u : Url) : Except DocumentError String × Workspace :=
  match w.buffers.lookup u, w.cache.lookup u with
  | some b, _ => (.ok b.text, w)
  | none, some text => (.ok text, w)
  | none, none =>
    match readFile d u with
    | .ok text => (.ok text, { w with cache := Table.insert w.cache u text })
    | .error e => (.error e, w)

/-- The documents of workspaces on a disk. -/
def provider (d : Disk) : Provider Workspace where
  list := fun w pattern => (w.list d pattern).toOption
  read := fun w u =>
    let (text, w) := w.read d u
    (text.toOption, w)

end Workspace

end StyleServer
