/-
  Documents held in memory, in the order of their URLs.
-/
import StyleServer.Search.Provider

namespace StyleServer

/-- Texts by their URLs, in order and each URL once. -/
structure Documents where
  entries : List (Url × String)
deriving DecidableEq

namespace Documents

/-- No documents. -/
def empty : Documents := ⟨[]⟩

/-- An ordered list of documents with one put into its place, where it replaces one of
    the same URL. -/
def insertInto (u : Url) (text : String) : List (Url × String) → List (Url × String)
  | [] => [(u, text)]
  | (v, t) :: rest =>
    if u = v then (u, text) :: rest
    else if u.le v then (u, text) :: (v, t) :: rest
    else (v, t) :: insertInto u text rest

/-- With a document, in place of one of the same URL. -/
def insert (d : Documents) (u : Url) (text : String) : Documents :=
  ⟨insertInto u text d.entries⟩

/-- Without a document. -/
def remove (d : Documents) (u : Url) : Documents := ⟨d.entries.filter (·.1 ≠ u)⟩

/-- The text of a document. -/
def get? (d : Documents) (u : Url) : Option String := d.entries.lookup u

/-- Number of documents. -/
def size (d : Documents) : Nat := d.entries.length

/-- The documents that match a pattern, in order. -/
def list (d : Documents) (pattern : String) : List Url :=
  (d.entries.map (·.1)).filter (·.matchesGlob pattern)

/-- The documents as a provider, whose state does not change. -/
def provider (d : Documents) : Provider Unit where
  list := fun _ pattern => some (d.list pattern)
  read := fun _ u => (d.get? u, ())

end Documents

end StyleServer
