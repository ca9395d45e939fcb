/-
  Searches that are cancelled.

  A search may be cancelled at any moment, and may or may not go by an answer that has come
  at the same time.  Whatever happens, it is a run that has been cut short:

  * `SearchRun.CutShort`: it has made the first reads of the whole run, exactly those that had
    been begun, and has found nothing or what the whole run finds.  If the whole run had ended
    before, it is the whole run.
  * `Provider.walk_cutShort`: one document after the other, a cancelled walk is cut short.
  * `Provider.search_cancelsSafely`: so is a search, and the classes it collects are those of
    the first documents.
-/
import StyleServer.Proofs.Search.Canonical

namespace StyleServer

variable {σ τ α : Type}

/-! ## Runs cut short -/

/-- The reads that have begun when a search is cancelled. -/
def Cancellation.begun (c : Cancellation) : Nat :=
  match c.moment with
  | .beforeListing | .whileListing => 0
  | .whileReading earlier => earlier + 1

theorem Cancellation.precedes_iff {c : Cancellation} {earlier : Nat} :
    c.precedes earlier = true ↔ c.begun ≤ earlier := by
  rcases c with ⟨_ | _ | n, _⟩
  · simp [precedes, begun]
  · simp [precedes, begun]
  · exact decide_eq_true_iff.trans Nat.lt_iff_add_one_le

theorem Cancellation.begun_eq_zero {c : Cancellation} (h : c.stopsListing = true) :
    c.begun = 0 := by
  rcases c with ⟨_ | _ | n, _⟩
  · rfl
  · rfl
  · simp [stopsListing] at h

theorem Cancellation.begun_eq_succ {c : Cancellation} {earlier : Nat}
    (h : c.stopsRead earlier = true) : c.begun = earlier + 1 := by
  have hmoment : c.moment = .whileReading earlier := by
    simp only [stopsRead, Bool.and_eq_true, decide_eq_true_eq] at h
    exact h.1
  rw [begun, hmoment]

namespace SearchRun

/-- The documents that a run has read, without those that could not be. -/
def documents (run : SearchRun σ τ α) : List (Url × String) :=
  run.reads.filterMap fun (u, text) => text.map fun text => (u, text)

/-- With a read before the others. -/
def after (run : SearchRun σ τ α) (read : Url × Option String) : SearchRun σ τ α :=
  { run with reads := read :: run.reads }

/-- A run is another one up to so many reads. -/
structure CutShort (most : Nat) (run full : SearchRun σ τ α) : Prop where
  reads : run.reads.map Prod.fst <+: full.reads.map Prod.fst
  length_reads : run.reads.length = min most full.reads.length
  documents : run.documents <+: full.documents
  found : run.found = none ∨ run.found = full.found
  /-- The other has ended before. -/
  eq_of_lt : full.reads.length < most → run = full

namespace CutShort

variable {most : Nat} {run full : SearchRun σ τ α}

/-- A run that is stopped before it reads anything. -/
theorem stopped (s : σ) (m : τ) : CutShort 0 ⟨none, [], s, m⟩ full where
  reads := List.nil_prefix
  length_reads := (Nat.zero_min _).symm
  documents := List.nil_prefix
  found := .inl rfl
  eq_of_lt h := absurd h (Nat.not_lt_zero _)

/-- A run that gives up its first read. -/
theorem givenUp {u : Url} {text : Option String} {rest : List (Url × Option String)}
    (hfull : full.reads = (u, text) :: rest) (s : σ) (m : τ) :
    CutShort 1 ⟨none, [(u, none)], s, m⟩ full where
  reads := by simp [hfull]
  length_reads := by simp [hfull]
  documents := List.nil_prefix
  found := .inl rfl
  eq_of_lt h := by simp [hfull] at h

theorem refl (h : run.reads.length ≤ most) : CutShort most run run where
  reads := List.prefix_rfl
  length_reads := (Nat.min_eq_right h).symm
  documents := List.prefix_rfl
  found := .inr rfl
  eq_of_lt _ := rfl

/-- Runs that begin with the same read. -/
theorem after (h : CutShort most run full) (read : Url × Option String) :
    CutShort (most + 1) (run.after read) (full.after read) where
  reads := by simpa [SearchRun.after] using h.reads
  length_reads := by simp [SearchRun.after, h.length_reads]
  documents := by
    obtain ⟨u, _ | text⟩ := read
    · simpa [SearchRun.after, SearchRun.documents] using h.documents
    · simpa [SearchRun.after, SearchRun.documents] using h.documents
  found := h.found
  eq_of_lt hlt := by rw [h.eq_of_lt (Nat.lt_of_succ_lt_succ hlt)]

end CutShort

end SearchRun

/-! ## Walks -/

namespace Provider

open SearchRun

/-- One step of a walk that is cancelled at some time. -/
theorem walk_cons_cancelled (p : Provider σ) (visit : Visitor τ α) (c : Cancellation) (n : Nat)
    (s : σ) (m : τ) (u : Url) (us : List Url) :
    p.walk visit (some c) n s m (u :: us) =
      if c.begun ≤ n then ⟨none, [], s, m⟩
      else if c.stopsRead n then ⟨none, [(u, none)], s, m⟩
      else match visit.look m u (p.read s u).1 with
        | (some found, m') => ⟨some found, [(u, (p.read s u).1)], (p.read s u).2, m'⟩
        | (none, m') =>
          (p.walk visit (some c) (n + 1) (p.read s u).2 m' us).after (u, (p.read s u).1) := by
  simp only [walk, Option.any_some, Cancellation.precedes_iff]
  rfl

theorem walk_cutShort (p : Provider σ) (visit : Visitor τ α) (c : Cancellation) (n : Nat) (s : σ)
    (m : τ) (us : List Url) :
    CutShort (c.begun - n) (p.walk visit (some c) n s m us) (p.walk visit none n s m us) := by
  induction us generalizing n s m with
  | nil => exact .refl (Nat.zero_le _)
  | cons u us ih =>
    rw [walk_cons_cancelled, walk_cons]
    split
    · next hbegun =>
      rw [Nat.sub_eq_zero_of_le hbegun]
      exact .stopped s m
    · next hbegun =>
      split
      · next hstops =>
        -- The read is given up, but the whole run makes it, too.
        rw [Cancellation.begun_eq_succ hstops, Nat.add_sub_cancel_left]
        rcases visit.look m u (p.read s u).1 with ⟨_ | found, m'⟩
        · exact .givenUp rfl s m
        · exact .givenUp rfl s m
      · have hmost : c.begun - n = c.begun - (n + 1) + 1 := by omega
        rw [hmost]
        rcases visit.look m u (p.read s u).1 with ⟨_ | found, m'⟩
        · exact (ih (n + 1) (p.read s u).2 m').after _
        · exact .refl (by simp)

/-! ## Searches -/

theorem search_cutShort (p : Provider σ) (pattern : String) (skip : Option Url)
    (visit : Visitor τ α) (c : Cancellation) (s : σ) (m : τ) :
    CutShort c.begun (p.search pattern skip visit (some c) s m)
      (p.search pattern skip visit none s m) := by
  simp only [search, Option.any_some, Option.any_none]
  split
  · next hstops =>
    rw [Cancellation.begun_eq_zero hstops]
    exact .stopped s m
  · cases p.list s pattern with
    | none => exact .refl (Nat.zero_le _)
    | some listed => exact p.walk_cutShort visit c 0 s m (searchOrder skip listed)

/-- The classes of documents. -/
def classesOf (documents : List (Url × String)) : List String :=
  documents.flatMap fun d => (Sheet.parse d.2).classNames

/-- A walk collects the classes of the documents that it reads, cancelled or not. -/
theorem walk_collectClasses (p : Provider σ) (cancel : Option Cancellation) (n : Nat) (s : σ)
    (names : List String) (us : List Url) :
    (p.walk collectClasses cancel n s names us).memory =
      names ++ classesOf (p.walk collectClasses cancel n s names us).documents := by
  induction us generalizing n s names with
  | nil => simp [walk, documents, classesOf]
  | cons u us ih =>
    simp only [walk]
    split
    · simp [documents, classesOf]
    · split
      · simp [documents, classesOf]
      · cases htext : (p.read s u).1 with
        | none =>
          simp only [Visitor.look]
          rw [ih]
          simp [documents, classesOf]
        | some text =>
          simp only [Visitor.look, collectClasses]
          rw [ih]
          simp [documents, classesOf]

theorem search_collectClasses (p : Provider σ) (pattern : String) (cancel : Option Cancellation)
    (s : σ) :
    (p.search pattern none collectClasses cancel s []).memory =
      classesOf (p.search pattern none collectClasses cancel s []).documents := by
  simp only [search]
  split
  · simp [documents, classesOf]
  · cases p.list s pattern with
    | none => simp [documents, classesOf]
    | some listed => simpa using p.walk_collectClasses cancel 0 s [] (searchOrder none listed)

theorem mem_classNames {p : Provider σ} {pattern : String} {cancel : Option Cancellation} {s : σ}
    {name : String} : name ∈ (p.classNames pattern cancel s).1 ↔
      name ∈ classesOf (p.classNames pattern cancel s).2.documents := by
  rw [classNames, mem_sortedDistinct, search_collectClasses]

/-- What cancelling leaves of the searches of a provider. -/
structure CancelsSafely (p : Provider σ) (pattern : String) (s : σ) (c : Cancellation) :
    Prop where
  /-- A search that is cancelled is the beginning of one that is not. -/
  search : ∀ {τ α : Type} (skip : Option Url) (visit : Visitor τ α) (m : τ),
    CutShort c.begun (p.search pattern skip visit (some c) s m)
      (p.search pattern skip visit none s m)
  /-- A variable of the origin is found all the same, at the name of its first declaration. -/
  origin : ∀ name origin (sheet : Sheet) d, sheet.customProperties.find? (·.name == name) = some d →
    (p.resolveVariable name origin sheet pattern (some c) s).found =
      some ⟨origin, sheet.range d.nameSpan⟩
  /-- The classes are those of the first documents, in order and each once. -/
  classes : ∃ documents, documents <+: (p.classNames pattern none s).2.documents ∧
    (p.classNames pattern (some c) s).1.Pairwise (· < ·) ∧
    (∀ name, name ∈ (p.classNames pattern (some c) s).1 ↔ name ∈ classesOf documents) ∧
    (p.classNames pattern (some c) s).1 ⊆ (p.classNames pattern none s).1

/-- **Cancelling is safe**, at any moment. -/
theorem search_cancelsSafely (p : Provider σ) (pattern : String) (s : σ) (c : Cancellation) :
    p.CancelsSafely pattern s c where
  search skip visit m := p.search_cutShort pattern skip visit c s m
  origin name origin sheet d h := by rw [resolveVariable, variableIn?_eq_some origin h]
  classes := by
    have hcut : (p.classNames pattern (some c) s).2.documents <+:
        (p.classNames pattern none s).2.documents :=
      (p.search_cutShort pattern none collectClasses c s []).documents
    refine ⟨_, hcut, sortedDistinct_increasing _, fun name => mem_classNames, fun name hname => ?_⟩
    rw [mem_classNames, classesOf, List.mem_flatMap] at hname ⊢
    obtain ⟨d, hd, hname⟩ := hname
    exact ⟨d, hcut.subset hd, hname⟩

end Provider

end StyleServer
