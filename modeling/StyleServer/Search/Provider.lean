/-
  Searching the documents of a workspace.

  * `Provider`: lists documents and reads them.  Either may fail, and reading may
    change the state of the provider.
  * `Visitor`: looks into one document after the other, and may keep something in
    mind meanwhile.
  * `Provider.search`: reads the listed documents in the order of their URLs,
    each once, until the visitor finds something.  A document that cannot be
    read is passed over.
  * `Cancellation`: a search can be cancelled while it waits, for the listing or
    for a document.  It looks before each read whether it has been.
-/
import StyleServer.Sheet.Lookup
import StyleServer.Url.Document

namespace StyleServer

/-- A range of a document. -/
structure Location where
  url : Url
  range : Range
deriving DecidableEq

/-- Where documents come from. -/
structure Provider (σ : Type) where
  /-- The documents that match a pattern; `none` when they cannot be listed. -/
  list : σ → String → Option (List Url)
  /-- The text of a document; `none` when it cannot be read. -/
  read : σ → Url → Option String × σ

/-- What is looked for in a document, with what was in mind before and is behind it. -/
abbrev Visitor (τ α : Type) := τ → Url → Sheet → Option α × τ

namespace Visitor

variable {τ α : Type}

/-- A visitor that keeps nothing in mind. -/
def plain (visit : Url → Sheet → Option α) : Visitor Unit α := fun m u s => (visit u s, m)

/-- Looks into a document that has been read; one that could not be is passed over. -/
def look (visit : Visitor τ α) (m : τ) (u : Url) : Option String → Option α × τ
  | some text => visit m u (Sheet.parse text)
  | none => (none, m)

end Visitor

/-! ## Cancellation -/

/-- When a search is cancelled. -/
inductive Moment where
  | beforeListing
  | whileListing
  /-- While a document is read, with so many others read before it. -/
  | whileReading (earlier : Nat)
deriving DecidableEq

/-- How a search is cancelled.  What it waits for may be there at the same time; then it goes
    by one or the other. -/
structure Cancellation where
  moment : Moment
  /-- The search goes by the cancellation, and not by an answer. -/
  prevails : Bool
deriving DecidableEq

namespace Cancellation

/-- The listing is given up. -/
def stopsListing (c : Cancellation) : Bool :=
  match c.moment with
  | .beforeListing | .whileListing => c.prevails
  | .whileReading _ => false

/-- The search has been cancelled before it comes to a read with so many before it. -/
def precedes (c : Cancellation) (earlier : Nat) : Bool :=
  match c.moment with
  | .beforeListing | .whileListing => true
  | .whileReading n => n < earlier

/-- The read with so many before it is given up. -/
def stopsRead (c : Cancellation) (earlier : Nat) : Bool :=
  c.moment = .whileReading earlier && c.prevails

end Cancellation

/-! ## Searching -/

/-- How a search has gone. -/
structure SearchRun (σ τ α : Type) where
  found : Option α
  /-- The documents read, in order, with their texts. -/
  reads : List (Url × Option String)
  state : σ
  /-- What the visitor has in mind at the end. -/
  memory : τ

/-- The documents to read: those listed, save one, in the order of their texts. -/
def searchOrder (skip : Option Url) (listed : List Url) : List Url :=
  ((listed.filter fun u => some u ≠ skip).mergeSort Url.le).eraseReps

namespace Provider

variable {σ τ α : Type}

/-- Reads documents in order until the visitor finds something, with so many read before. -/
def walk (p : Provider σ) (visit : Visitor τ α) (cancel : Option Cancellation) :
    Nat → σ → τ → List Url → SearchRun σ τ α
  | _, s, m, [] => ⟨none, [], s, m⟩
  | earlier, s, m, u :: us =>
    if cancel.any (·.precedes earlier) then ⟨none, [], s, m⟩
    else if cancel.any (·.stopsRead earlier) then ⟨none, [(u, none)], s, m⟩
    else
      let (text, s) := p.read s u
      match visit.look m u text with
      | (some found, m) => ⟨some found, [(u, text)], s, m⟩
      | (none, m) =>
        let rest := p.walk visit cancel (earlier + 1) s m us
        { rest with reads := (u, text) :: rest.reads }

/-- Searches the documents that match a pattern, save one. -/
def search (p : Provider σ) (pattern : String) (skip : Option Url) (visit : Visitor τ α)
    (cancel : Option Cancellation) (s : σ) (m : τ) : SearchRun σ τ α :=
  if cancel.any (·.stopsListing) then ⟨none, [], s, m⟩
  else match p.list s pattern with
    | none => ⟨none, [], s, m⟩
    | some listed => p.walk visit cancel 0 s m (searchOrder skip listed)

end Provider

end StyleServer
