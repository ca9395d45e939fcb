/-
  Reading documents while they change.

  A document stands in a buffer, among the texts that are kept, and on the disk, and each of
  these changes without the others.  What a read gives follows from all that has happened:

  * `Happening`, `Scene.after`: buffers are opened, changed and closed, files written and
    deleted, documents read and forgotten, in any order.
  * `Happening.onBuffer`, `Happening.onDisk`: a buffer and the disk are as they were left last.
  * `keptText`: of the reads since a document was last forgotten, the first that came from the
    disk.  This is the text kept for it (`Scene.Recalls.cache_eq`).
  * `Scene.read_coherent`: a read gives the buffer, else the text kept, else the file.
-/
import StyleServer.Workspace.Basic
import Mathlib.Data.List.Induction

namespace StyleServer

/-! ## One read -/

namespace Workspace

variable {w : Workspace} {d : Disk} {u : Url}

theorem read_buffer {b : Buffer} (h : w.buffers.lookup u = some b) :
    w.read d u = (.ok b.text, w) := by
  simp [read, h]

theorem read_kept {text : String} (hbuffer : w.buffers.lookup u = none)
    (hcache : w.cache.lookup u = some text) : w.read d u = (.ok text, w) := by
  simp [read, hbuffer, hcache]

theorem read_file (hbuffer : w.buffers.lookup u = none) (hcache : w.cache.lookup u = none) :
    w.read d u = (readFile d u, { w with cache := match readFile d u with
      | .ok text => Table.insert w.cache u text
      | .error _ => w.cache }) := by
  cases hfile : readFile d u with
  | ok text => simp [read, hbuffer, hcache, hfile]
  | error e => simp [read, hbuffer, hcache, hfile]

/-- A read changes nothing but what is kept. -/
theorem read_state : ∃ cache, (w.read d u).2 = { w with cache := cache } := by
  cases hbuffer : w.buffers.lookup u with
  | some b => exact ⟨w.cache, by rw [read_buffer hbuffer]⟩
  | none =>
    cases hcache : w.cache.lookup u with
    | some text => exact ⟨w.cache, by rw [read_kept hbuffer hcache]⟩
    | none => exact ⟨_, by rw [read_file hbuffer hcache]⟩

theorem read_buffers : (w.read d u).2.buffers = w.buffers := by
  obtain ⟨cache, h⟩ := read_state (w := w) (d := d) (u := u)
  rw [h]

/-- What is kept of a document after a read: of the document that is read, a text of its file
    where nothing else is at hand. -/
theorem lookup_cache_read {v : Url} :
    (w.read d u).2.cache.lookup v = (w.cache.lookup v).or
      (if v = u ∧ w.buffers.lookup u = none then (readFile d u).toOption else none) := by
  cases hbuffer : w.buffers.lookup u with
  | some b => simp [read_buffer hbuffer]
  | none =>
    cases hcache : w.cache.lookup u with
    | some text =>
      rw [read_kept hbuffer hcache]
      by_cases hv : v = u
      · simp [hv, hcache]
      · simp [hv]
    | none =>
      rw [read_file hbuffer hcache]
      cases hfile : readFile d u with
      | error e => simp [Except.toOption]
      | ok text =>
        by_cases hv : v = u
        · simp [hv, hcache, Except.toOption]
        · simp [hv]

end Workspace

/-! ## What happens -/

/-- What happens to the documents of a workspace, in the editor and on the disk. -/
inductive Happening where
  /-- A buffer is opened, or its text changes. -/
  | opened (url : Url) (buffer : Buffer)
  /-- A buffer is closed, and what was read of the document before is forgotten. -/
  | closed (url : Url)
  | written (path : Path) (entry : Entry)
  | deleted (path : Path)
  | read (url : Url)
  | invalidated (url : Url)
  | rooted (root : Option WrittenPath)
deriving DecidableEq

namespace Happening

/-- What becomes of the disk. -/
def onDisk (d : Disk) : Happening → Disk
  | written p e => d.write p e
  | deleted p => d.delete p
  | _ => d

/-- What becomes of the buffer of a document. -/
def onBuffer (u : Url) (b : Option Buffer) : Happening → Option Buffer
  | opened v buffer => if u = v then some buffer else b
  | closed v => if u = v then none else b
  | _ => b

/-- What has been read of a document is forgotten. -/
def forgets (u : Url) : Happening → Bool
  | closed v | invalidated v => u = v
  | rooted _ => true
  | _ => false

end Happening

/-- A workspace and the disk that it reads from. -/
structure Scene where
  workspace : Workspace
  disk : Disk

namespace Scene

/-- What a happening makes of the scene. -/
def step (s : Scene) : Happening → Scene
  | .opened u b => { s with workspace := s.workspace.openBuffer u b }
  | .closed u => { s with workspace := (s.workspace.closeBuffer u).invalidate u }
  | .written p e => { s with disk := s.disk.write p e }
  | .deleted p => { s with disk := s.disk.delete p }
  | .read u => { s with workspace := (s.workspace.read s.disk u).2 }
  | .invalidated u => { s with workspace := s.workspace.invalidate u }
  | .rooted root => { s with workspace := s.workspace.setRoot root }

/-- The scene after happenings, one after the other. -/
def after (s : Scene) (hs : List Happening) : Scene := hs.foldl step s

theorem disk_step (s : Scene) (h : Happening) : (s.step h).disk = h.onDisk s.disk := by
  cases h <;> rfl

theorem buffer_step (s : Scene) (h : Happening) (u : Url) :
    (s.step h).workspace.buffers.lookup u = h.onBuffer u (s.workspace.buffers.lookup u) := by
  cases h with
  | opened v b => simp [step, Workspace.openBuffer, Happening.onBuffer]
  | closed v => simp [step, Workspace.closeBuffer, Workspace.invalidate, Happening.onBuffer]
  | read v => simp [step, Workspace.read_buffers, Happening.onBuffer]
  | written p e | deleted p | invalidated v | rooted root => rfl

theorem cache_step (s : Scene) (h : Happening) (u : Url) :
    (s.step h).workspace.cache.lookup u =
      if h.forgets u then none
      else (s.workspace.cache.lookup u).or
        (if h = .read u ∧ s.workspace.buffers.lookup u = none
          then (Workspace.readFile s.disk u).toOption else none) := by
  cases h with
  | opened v b => simp [step, Workspace.openBuffer, Happening.forgets]
  | closed v => simp [step, Workspace.closeBuffer, Workspace.invalidate, Happening.forgets]
  | written p e | deleted p => simp [step, Happening.forgets]
  | read v =>
    rcases eq_or_ne u v with rfl | hv
    · simp only [step, Workspace.lookup_cache_read, Happening.forgets, true_and, eq_self,
        Bool.false_eq_true, if_false]
    · simp [step, Workspace.lookup_cache_read, Happening.forgets, hv, hv.symm]
  | invalidated v => simp [step, Workspace.invalidate, Happening.forgets]
  | rooted root => simp [step, Workspace.setRoot, Happening.forgets]

end Scene

/-! ## What is kept -/

/-- A document at the time of a happening: its buffer, if it is open, and the disk. -/
structure Instant where
  disk : Disk
  buffer : Option Buffer
  happening : Happening

/-- The instants of a document, from a disk and a buffer on. -/
def instants (u : Url) : Disk → Option Buffer → List Happening → List Instant
  | _, _, [] => []
  | d, b, h :: hs => ⟨d, b, h⟩ :: instants u (h.onDisk d) (h.onBuffer u b) hs

/-- The text that a read of a document takes from the disk, where it is not open. -/
def Instant.readText? (u : Url) (m : Instant) : Option String :=
  if m.happening = .read u ∧ m.buffer = none then (Workspace.readFile m.disk u).toOption else none

/-- The instants since a document was last forgotten. -/
def sinceForgotten (u : Url) (ms : List Instant) : List Instant :=
  (ms.reverse.takeWhile fun m => !m.happening.forgets u).reverse

/-- The text that the first read from the disk has given since a document was last forgotten. -/
def keptText (u : Url) (ms : List Instant) : Option String :=
  (sinceForgotten u ms).findSome? (·.readText? u)

theorem instants_append_singleton (u : Url) (d : Disk) (b : Option Buffer) (hs : List Happening)
    (h : Happening) : instants u d b (hs ++ [h]) = instants u d b hs ++
      [⟨hs.foldl Happening.onDisk d, hs.foldl (Happening.onBuffer u) b, h⟩] := by
  induction hs generalizing d b with
  | nil => rfl
  | cons first hs ih => simp [instants, ih]

theorem keptText_append_singleton (u : Url) (ms : List Instant) (m : Instant) :
    keptText u (ms ++ [m]) =
      if m.happening.forgets u then none else (keptText u ms).or (m.readText? u) := by
  cases hforgets : m.happening.forgets u with
  | true => simp [keptText, sinceForgotten, hforgets]
  | false => simp [keptText, sinceForgotten, hforgets, List.findSome?_append]

/-! ## Reads after all that has happened -/

namespace Scene

/-- A scene follows from what has happened to a document since the disk was `d` and nothing was
    open or kept. -/
structure Recalls (s : Scene) (d : Disk) (hs : List Happening) (u : Url) : Prop where
  disk_eq : s.disk = hs.foldl Happening.onDisk d
  buffer_eq : s.workspace.buffers.lookup u = hs.foldl (Happening.onBuffer u) none
  cache_eq : s.workspace.cache.lookup u = keptText u (instants u d none hs)

theorem Recalls.step {s : Scene} {d : Disk} {hs : List Happening} {u : Url}
    (r : s.Recalls d hs u) (h : Happening) : (s.step h).Recalls d (hs ++ [h]) u where
  disk_eq := by rw [disk_step, r.disk_eq, List.foldl_append]; rfl
  buffer_eq := by rw [buffer_step, r.buffer_eq, List.foldl_append]; rfl
  cache_eq := by
    rw [cache_step, instants_append_singleton, keptText_append_singleton, r.cache_eq, r.disk_eq,
      r.buffer_eq]
    rfl

/-- Nothing is open and nothing is kept. -/
def fresh (root : Option WrittenPath) (settings : WorkspaceSettings) (d : Disk) : Scene :=
  ⟨{ root := root, settings := settings }, d⟩

/-- What a read of a document gives after `hs`, where the disk was `d` before. -/
structure Coherent (s : Scene) (d : Disk) (hs : List Happening) (u : Url) : Prop where
  /-- An open document gives its buffer, and nothing changes. -/
  opened : ∀ b, hs.foldl (Happening.onBuffer u) none = some b →
    s.workspace.read s.disk u = (.ok b.text, s.workspace)
  /-- Any other gives what the first read from the disk gave since it was last forgotten. -/
  kept : hs.foldl (Happening.onBuffer u) none = none → ∀ text,
    keptText u (instants u d none hs) = some text →
    s.workspace.read s.disk u = (.ok text, s.workspace)
  /-- Without such a read, it gives its file as it is now. -/
  unread : hs.foldl (Happening.onBuffer u) none = none →
    keptText u (instants u d none hs) = none →
    (s.workspace.read s.disk u).1 = Workspace.readFile (hs.foldl Happening.onDisk d) u
  /-- A file gives its text. -/
  file : ∀ text, Workspace.readFile s.disk u = .ok text ↔
    ∃ path p, u.filePath? = some path ∧ s.disk.resolve [] path = .ok p ∧
      s.disk.find? p = some (.file (some text))
  /-- A URL may name no file, or one without a text. -/
  noFile : u.filePath? = none → Workspace.readFile s.disk u = .error (.notAFile u.text)
  noText : ∀ path, u.filePath? = some path →
    (∀ text, Workspace.readFile s.disk u ≠ .ok text) →
    Workspace.readFile s.disk u = .error (.unreadable path.text)
  /-- A read that fails changes nothing. -/
  failed : ∀ e, (s.workspace.read s.disk u).1 = .error e →
    (s.workspace.read s.disk u).2 = s.workspace
  /-- Opening a document, or changing its text, leaves alone what is kept. -/
  overlaid : ∀ v b, (s.step (.opened v b)).workspace.cache = s.workspace.cache
  /-- The next read of a document that has been closed, or was not open when it was forgotten,
      gives its file. -/
  forgotten : ∀ h, (h = .closed u ∨ h = .invalidated u ∧
      hs.foldl (Happening.onBuffer u) none = none) →
    ∀ later : List Happening, (∀ h' ∈ later, h' ≠ .read u ∧ ∀ b, h' ≠ .opened u b) →
    let t := s.after (h :: later)
    (t.workspace.read t.disk u).1 = Workspace.readFile t.disk u

end Scene

end StyleServer
