/-
  What a search reads and finds.

  A search stops at the first document in which something is found.  It is compared with
  reading all of its documents one after the other:

  * `Provider.texts`: what the documents give when all of them are read.
  * `Visitor.finds`: what is found in each of them.  `variableIn?_eq_some`: a variable is found
    where a sheet first declares it.
  * `Provider.walk_reads`, `Provider.walk_found`: a walk reads up to the first document in
    which something is found, and finds that.
  * `Provider.search_canonical`: so the order and the repetitions of a listing do not matter,
    nor does a document that cannot be read.
-/
import StyleServer.Proofs.Search.Order
import StyleServer.Workspace.Basic

namespace StyleServer

variable {σ τ α : Type}

/-! ## All documents -/

/-- The texts of documents that are read one after the other. -/
def Provider.texts (p : Provider σ) : σ → List Url → List (Url × Option String)
  | _, [] => []
  | s, u :: us => (u, (p.read s u).1) :: p.texts (p.read s u).2 us

/-- What a visitor finds in each of the documents. -/
def Visitor.finds (visit : Visitor τ α) : τ → List (Url × Option String) → List (Option α)
  | _, [] => []
  | m, (u, text) :: rest => (visit.look m u text).1 :: visit.finds (visit.look m u text).2 rest

namespace Visitor

/-- Documents that could not be read do not count. -/
theorem findSome?_finds_readable (visit : Visitor τ α) (m : τ)
    (texts : List (Url × Option String)) :
    (visit.finds m (texts.filter (·.2.isSome))).findSome? id =
      (visit.finds m texts).findSome? id := by
  induction texts generalizing m with
  | nil => rfl
  | cons read texts ih =>
    obtain ⟨u, text⟩ := read
    cases text with
    | none => simpa [finds, look] using ih m
    | some text => simp only [List.filter_cons, Option.isSome_some, if_true, finds,
        List.findSome?_cons, ih]

theorem finds_plain (visit : Url → Sheet → Option α) (texts : List (Url × Option String)) :
    (plain visit).finds () texts =
      texts.map fun (u, text) => text.bind fun text => visit u (Sheet.parse text) := by
  induction texts with
  | nil => rfl
  | cons read texts ih =>
    obtain ⟨u, text⟩ := read
    cases text with
    | none => simp [finds, look, ih]
    | some text => simp [finds, look, plain, ← ih]

end Visitor

/-! ## Variables -/

theorem variableIn?_eq_some {s : Sheet} {name : String} (u : Url) {c : CustomProperty}
    (h : s.customProperties.find? (·.name == name) = some c) :
    variableIn? name u s = some ⟨u, s.range c.nameSpan⟩ := by
  rw [variableIn?, Sheet.findCustom?, h, Option.map_some]

theorem variableIn?_eq_none {s : Sheet} {name : String} (u : Url)
    (h : ∀ c ∈ s.customProperties, c.name ≠ name) : variableIn? name u s = none := by
  rw [variableIn?, Sheet.findCustom?, Option.map_eq_none_iff, List.find?_eq_none]
  simpa using h

namespace Provider

theorem map_fst_texts (p : Provider σ) (s : σ) (us : List Url) :
    (p.texts s us).map Prod.fst = us := by
  induction us generalizing s with
  | nil => rfl
  | cons u us ih => simp [texts, ih]

theorem mem_of_mem_texts {p : Provider σ} {s : σ} {us : List Url} {u : Url} {text : Option String}
    (h : (u, text) ∈ p.texts s us) : u ∈ us := by
  rw [← p.map_fst_texts s us]
  exact List.mem_map.2 ⟨_, h, rfl⟩

/-- A read that fails does not change what others give. -/
def FailsQuietly (p : Provider σ) : Prop :=
  ∀ s u, (p.read s u).1 = none → ∀ us, p.texts (p.read s u).2 us = p.texts s us

/-- Without documents that cannot be read, the others give the same. -/
theorem FailsQuietly.texts_filter {p : Provider σ} (h : p.FailsQuietly) {keep : Url → Bool}
    {us : List Url} (hnodup : us.Nodup) {s : σ}
    (hfail : ∀ u ∈ us, keep u = false → (u, none) ∈ p.texts s us) :
    p.texts s (us.filter keep) = (p.texts s us).filter fun r => keep r.1 := by
  induction us generalizing s with
  | nil => rfl
  | cons u us ih =>
    obtain ⟨hu, hus⟩ := List.nodup_cons.1 hnodup
    have htail : ∀ v ∈ us, keep v = false → (v, none) ∈ p.texts (p.read s u).2 us := by
      intro v hv hkeep
      rcases List.mem_cons.1 (hfail v (List.mem_cons_of_mem u hv) hkeep) with heq | hmem
      · exact absurd ((Prod.mk.inj heq).1 ▸ hv) hu
      · exact hmem
    cases hkeep : keep u with
    | true => simp [texts, hkeep, ih hus htail]
    | false =>
      have hnone : (p.read s u).1 = none := by
        rcases List.mem_cons.1 (hfail u List.mem_cons_self hkeep) with heq | hmem
        · exact (Prod.mk.inj heq).2.symm
        · exact absurd (mem_of_mem_texts hmem) hu
      have hquiet : p.texts s (us.filter keep) = p.texts (p.read s u).2 (us.filter keep) :=
        (h s u hnone _).symm
      simp [texts, hkeep, hquiet, ih hus htail]

/-! ## A walk -/

/-- One step of a walk: a document is read, and the rest only if nothing is found in it. -/
theorem walk_cons (p : Provider σ) (visit : Visitor τ α) (n : Nat) (s : σ) (m : τ) (u : Url)
    (us : List Url) :
    p.walk visit none n s m (u :: us) =
      match visit.look m u (p.read s u).1 with
      | (some found, m') => ⟨some found, [(u, (p.read s u).1)], (p.read s u).2, m'⟩
      | (none, m') =>
        let rest := p.walk visit none (n + 1) (p.read s u).2 m' us
        { rest with reads := (u, (p.read s u).1) :: rest.reads } := rfl

/-- A walk finds what is found first. -/
theorem walk_found (p : Provider σ) (visit : Visitor τ α) (n : Nat) (s : σ) (m : τ)
    (us : List Url) :
    (p.walk visit none n s m us).found = (visit.finds m (p.texts s us)).findSome? id := by
  induction us generalizing n s m with
  | nil => rfl
  | cons u us ih =>
    rw [walk_cons]
    rcases hlook : visit.look m u (p.read s u).1 with ⟨_ | found, m'⟩
    · simp only [texts, Visitor.finds, hlook, List.findSome?_cons, id, ih]
    · simp only [texts, Visitor.finds, hlook, List.findSome?_cons, id]

/-- A walk reads up to the first document in which something is found, and that one. -/
theorem walk_reads (p : Provider σ) (visit : Visitor τ α) (n : Nat) (s : σ) (m : τ)
    (us : List Url) :
    (p.walk visit none n s m us).reads =
      (p.texts s us).take ((visit.finds m (p.texts s us)).findIdx Option.isSome + 1) := by
  induction us generalizing n s m with
  | nil => rfl
  | cons u us ih =>
    rw [walk_cons]
    rcases hlook : visit.look m u (p.read s u).1 with ⟨_ | found, m'⟩
    · simp only [texts, Visitor.finds, hlook, List.findIdx_cons, Option.isSome_none, cond_false,
        List.take_succ_cons, ih]
    · simp only [texts, Visitor.finds, hlook, List.findIdx_cons, Option.isSome_some, cond_true,
        List.take_succ_cons, List.take_zero]

/-- Documents that cannot be read may as well be left out of a walk. -/
theorem FailsQuietly.walk_found_filter {p : Provider σ} (h : p.FailsQuietly) {keep : Url → Bool}
    {us : List Url} (hnodup : us.Nodup) {s : σ}
    (hfail : ∀ u ∈ us, keep u = false → (u, none) ∈ p.texts s us) (visit : Visitor τ α) (n : Nat)
    (m : τ) : (p.walk visit none n s m (us.filter keep)).found =
      (p.walk visit none n s m us).found := by
  have hurls : ((p.texts s us).map Prod.fst).Nodup := by rwa [map_fst_texts]
  have hreadable : (p.texts s us).filter (fun r => r.2.isSome && keep r.1) =
      (p.texts s us).filter (·.2.isSome) := by
    refine List.filter_congr fun r hr => ?_
    cases hkeep : keep r.1 with
    | true => simp
    | false =>
      have hfailed : (r.1, none) ∈ p.texts s us := hfail r.1 (mem_of_mem_texts hr) hkeep
      have hnone : r.2 = none :=
        congrArg Prod.snd (List.inj_on_of_nodup_map hurls hr hfailed rfl)
      simp [hnone]
  rw [walk_found, walk_found, h.texts_filter hnodup hfail, ← visit.findSome?_finds_readable,
    List.filter_filter, hreadable, visit.findSome?_finds_readable]

/-! ## A search -/

theorem search_unlisted {p : Provider σ} {pattern : String} {s : σ}
    (h : p.list s pattern = none) (skip : Option Url) (visit : Visitor τ α) (m : τ) :
    p.search pattern skip visit none s m = ⟨none, [], s, m⟩ := by
  simp [search, h]

theorem search_listed {p : Provider σ} {pattern : String} {s : σ} {listed : List Url}
    (h : p.list s pattern = some listed) (skip : Option Url) (visit : Visitor τ α) (m : τ) :
    p.search pattern skip visit none s m =
      p.walk visit none 0 s m (searchOrder skip listed) := by
  simp [search, h]

theorem walk_congr {p q : Provider σ} (h : q.read = p.read) (visit : Visitor τ α)
    (cancel : Option Cancellation) (n : Nat) (s : σ) (m : τ) (us : List Url) :
    q.walk visit cancel n s m us = p.walk visit cancel n s m us := by
  induction us generalizing n s m with
  | nil => rfl
  | cons u us ih => simp only [walk, h, ih]

/-- The searches of a provider follow from what is listed and what can be read. -/
structure Canonical (p : Provider σ) (pattern : String) (s : σ) : Prop where
  /-- Without a listing nothing is read. -/
  unlisted : p.list s pattern = none → ∀ {τ α : Type} (skip : Option Url) (visit : Visitor τ α)
    (m : τ), p.search pattern skip visit none s m = ⟨none, [], s, m⟩
  /-- The documents listed, save one, are read in the order of their texts, each once, up to
      the first in which something is found. -/
  inOrder : ∀ listed, p.list s pattern = some listed → ∀ {τ α : Type} (skip : Option Url)
    (visit : Visitor τ α) (m : τ),
    let order := searchOrder skip listed
    let texts := p.texts s order
    let finds := visit.finds m texts
    let run := p.search pattern skip visit none s m
    Increasing (fun u : Url => u.text) order ∧
    (∀ u, u ∈ order ↔ u ∈ listed ∧ some u ≠ skip) ∧
    texts.map Prod.fst = order ∧
    run.reads = texts.take (finds.findIdx Option.isSome + 1) ∧
    run.found = finds.findSome? id
  /-- It does not matter in which order and how often documents are listed. -/
  relisted : ∀ q : Provider σ, q.read = p.read → ∀ listed listed',
    p.list s pattern = some listed → q.list s pattern = some listed' →
    (∀ u, u ∈ listed' ↔ u ∈ listed) → ∀ {τ α : Type} (skip : Option Url) (visit : Visitor τ α)
    (m : τ), q.search pattern skip visit none s m = p.search pattern skip visit none s m
  /-- It does not matter whether documents are listed whose read fails. -/
  unread : p.FailsQuietly → ∀ q : Provider σ, q.read = p.read → ∀ listed listed',
    p.list s pattern = some listed → q.list s pattern = some listed' →
    listed' ⊆ listed → ∀ {τ α : Type} (skip : Option Url) (visit : Visitor τ α) (m : τ),
    (∀ u ∈ searchOrder skip listed, u ∉ listed' →
      (u, none) ∈ p.texts s (searchOrder skip listed)) →
    (q.search pattern skip visit none s m).found = (p.search pattern skip visit none s m).found
  /-- A variable of the origin is found without a read, at the name of its first declaration. -/
  origin : ∀ name origin (sheet : Sheet) c, sheet.customProperties.find? (·.name == name) = some c →
    p.resolveVariable name origin sheet pattern none s =
      ⟨some ⟨origin, sheet.range c.nameSpan⟩, [], s, ()⟩
  /-- Any other is found in the first document that declares it, where it does so first. -/
  others : ∀ name origin (sheet : Sheet) listed, (∀ c ∈ sheet.customProperties, c.name ≠ name) →
    p.list s pattern = some listed →
    (p.resolveVariable name origin sheet pattern none s).found =
      (p.texts s (searchOrder (some origin) listed)).findSome? fun (u, text) => do
        let other := Sheet.parse (← text)
        let c ← other.customProperties.find? (·.name == name)
        return ⟨u, other.range c.nameSpan⟩

/-- **Searches are canonical.** -/
theorem search_canonical (p : Provider σ) (pattern : String) (s : σ) : p.Canonical pattern s where
  unlisted h _ _ skip visit m := search_unlisted h skip visit m
  inOrder listed h _ _ skip visit m := by
    refine ⟨searchOrder_increasing skip listed, fun u => mem_searchOrder, p.map_fst_texts s _,
      ?_, ?_⟩
    · rw [search_listed h, walk_reads]
    · rw [search_listed h, walk_found]
  relisted q hread listed listed' h h' hmem _ _ skip visit m := by
    rw [search_listed h, search_listed h', searchOrder_congr hmem, walk_congr hread]
  unread hquiet q hread listed listed' h h' hsub _ _ skip visit m hfail := by
    have horder : searchOrder skip listed' =
        (searchOrder skip listed).filter fun u => decide (u ∈ listed') := by
      refine (searchOrder_increasing skip listed').eq
        ((searchOrder_increasing skip listed).filter _) fun u => ?_
      simp only [List.mem_filter, mem_searchOrder, decide_eq_true_eq]
      constructor
      · exact fun ⟨hu, hskip⟩ => ⟨⟨hsub hu, hskip⟩, hu⟩
      · exact fun ⟨⟨_, hskip⟩, hu⟩ => ⟨hu, hskip⟩
    rw [search_listed h, search_listed h', walk_congr hread, horder]
    exact hquiet.walk_found_filter (searchOrder_increasing skip listed).nodup
      (fun u hu hout => hfail u hu (of_decide_eq_false hout)) visit 0 m
  origin name origin sheet c h := by
    rw [resolveVariable, variableIn?_eq_some origin h]
  others name origin sheet listed hnone h := by
    rw [resolveVariable, variableIn?_eq_none origin hnone]
    dsimp only [findVariable]
    rw [search_listed h, walk_found, Visitor.finds_plain, List.findSome?_map]
    refine congrArg (List.findSome? · _) (funext fun (u, text) => ?_)
    cases text with
    | none => rfl
    | some text => exact Option.map_eq_bind

end Provider

/-- The documents of a workspace fail quietly: only what has been read is kept. -/
theorem Workspace.provider_failsQuietly (d : Disk) : (Workspace.provider d).FailsQuietly := by
  intro w u hfail us
  have hsame : ((Workspace.provider d).read w u).2 = w := by
    simp only [provider, read] at hfail ⊢
    split
    · rfl
    · rfl
    · next hbuffer hcache =>
      rw [hbuffer, hcache] at hfail
      cases hfile : readFile d u with
      | ok text => simp [hfile, Except.toOption] at hfail
      | error e => rfl
  rw [hsame]

end StyleServer
