/-
  Documents over a session.

  A document stands in the table of the session, with its sheet, and the editor shows the
  diagnostics published last.  Both follow from the last notice that says something about it:

  * `Notice.effectOn`: a document holds a text from then on, or is closed.  Notices about other
    documents have no effect on it, nor has a change without texts.
  * `Session.takeAll`: notices, one after the other.
  * `Session.lookup_take`, `Session.published_take`: what one notice does to a document and to
    what is published of it; `Session.lookup_takeAll` and `Session.published_takeAll` of all.
  * `Session.documents_current`: after any notices the table and the editor are up to date.
-/
import StyleServer.Session.Basic

namespace StyleServer

/-! ## Notices about a document -/

/-- What a notice does to a document. -/
inductive DocumentEffect where
  | holds (version : Int) (text : String)
  | closed
deriving DecidableEq

namespace Notice

/-- The document that a notice is about. -/
def url? : Notice → Option Url
  | ready => none
  | opened u _ _ | changed u _ _ | closed u => some u

/-- What a notice does to a document, if it does anything. -/
def effectOn (u : Url) : Notice → Option DocumentEffect
  | ready => none
  | opened v version text => if u = v then some (.holds version text) else none
  | changed v version texts => if u = v then texts.getLast?.map (.holds version) else none
  | closed v => if u = v then some .closed else none

theorem effectOn_of_url?_ne {n : Notice} {u : Url} (h : n.url? ≠ some u) :
    n.effectOn u = none := by
  cases n with
  | ready => rfl
  | opened v _ _ | changed v _ _ | closed v =>
    have hv : u ≠ v := fun heq => h (by rw [heq]; rfl)
    exact if_neg hv

end Notice

/-- The last of the effects that notices have on a document. -/
def lastEffect? (u : Url) (ns : List Notice) : Option DocumentEffect :=
  (ns.filterMap (·.effectOn u)).getLast?

theorem lastEffect?_cons (u : Url) (n : Notice) (ns : List Notice) :
    lastEffect? u (n :: ns) = (lastEffect? u ns).or (n.effectOn u) := by
  simp only [lastEffect?, List.filterMap_cons]
  cases n.effectOn u with
  | none => simp
  | some e => rw [List.getLast?_cons, Option.or_some]

/-- What the table holds of a document after an effect. -/
def DocumentEffect.buffer? (u : Url) : DocumentEffect → Option Buffer
  | holds version text =>
    some ⟨text, if u.isMarkup then none else some (Sheet.parse text), some version⟩
  | closed => none

namespace Session

variable {s : Session} {u : Url} {n : Notice}

/-- What is published of a document with an effect on it; of layouts, only that they are
    closed. -/
def told? (s : Session) (u : Url) : DocumentEffect → Option Publication
  | .holds version text =>
    if u.isMarkup then none else some ⟨u, some version, s.diagnose (Sheet.parse text)⟩
  | .closed => some ⟨u, none, []⟩

/-! ## One notice -/

theorem lookup_update (s : Session) (u v : Url) (text : String) (version : Int) :
    (s.update v text version).1.workspace.buffers.lookup u =
      if u = v then (DocumentEffect.holds version text).buffer? u
      else s.workspace.buffers.lookup u := by
  refine (Table.lookup_insert ..).trans ?_
  split
  · next hu => rw [hu]; rfl
  · rfl

theorem published_update (s : Session) (u : Url) (text : String) (version : Int) :
    (s.update u text version).2.published = (s.told? u (.holds version text)).toList := by
  have hlookup : (s.update u text version).1.workspace.buffers.lookup u =
      (DocumentEffect.holds version text).buffer? u := (lookup_update ..).trans (if_pos rfl)
  have hpublished : (s.update u text version).2.published =
      ((s.update u text version).1.publication? u).toList := rfl
  rw [hpublished, publication?, hlookup, DocumentEffect.buffer?, Option.bind_eq_bind,
    Option.bind_some, told?]
  split <;> rfl

theorem lookup_close (s : Session) (u v : Url) :
    (s.close v).1.workspace.buffers.lookup u =
      if u = v then DocumentEffect.closed.buffer? u else s.workspace.buffers.lookup u :=
  Table.lookup_erase ..

theorem url_of_told? {e : DocumentEffect} {p : Publication} (h : s.told? u e = some p) :
    p.url = u := by
  cases e with
  | holds version text =>
    simp only [told?, Option.ite_none_left_eq_some, Option.some.injEq] at h
    rw [← h.2]
  | closed => rw [← Option.some.inj h]

/-- A notice changes nothing but the workspace. -/
theorem take_state (s : Session) (n : Notice) :
    ∃ w, (s.take n).1 = { s with workspace := w } := by
  cases n with
  | ready => exact ⟨s.workspace, rfl⟩
  | opened u version text => exact ⟨_, rfl⟩
  | changed u version texts =>
    cases htexts : texts.getLast? with
    | none => exact ⟨s.workspace, by simp [take, htexts]⟩
    | some text => exact ⟨_, by simp only [take, htexts]; rfl⟩
  | closed u => exact ⟨_, rfl⟩

theorem lookup_take (s : Session) (n : Notice) (u : Url) :
    (s.take n).1.workspace.buffers.lookup u =
      (n.effectOn u).elim (s.workspace.buffers.lookup u) (·.buffer? u) := by
  cases n with
  | ready => rfl
  | opened v version text =>
    rw [take, lookup_update, Notice.effectOn]
    split <;> rfl
  | changed v version texts =>
    cases htexts : texts.getLast? with
    | none => simp [take, Notice.effectOn, htexts]
    | some text =>
      simp only [take, Notice.effectOn, htexts, lookup_update]
      split <;> rfl
  | closed v =>
    rw [take, lookup_close, Notice.effectOn]
    split <;> rfl

/-- What is published of a document is about no other. -/
theorem filter_told? (s : Session) (u v : Url) (e : DocumentEffect) :
    (s.told? v e).toList.filter (·.url = u) =
      if u = v then (s.told? u e).toList else [] := by
  have hurl : ∀ p ∈ (s.told? v e).toList, p.url = v :=
    fun p hp => url_of_told? (Option.mem_toList.1 hp)
  split
  · next hu =>
    rw [hu, List.filter_eq_self]
    exact fun p hp => decide_eq_true (hurl p hp)
  · next hu =>
    rw [List.filter_eq_nil_iff]
    intro p hp
    rw [hurl p hp, decide_eq_true_iff]
    exact Ne.symm hu

/-- What a notice publishes of a document. -/
theorem published_take (s : Session) (n : Notice) (u : Url) :
    (s.take n).2.published.filter (·.url = u) = ((n.effectOn u).bind (s.told? u)).toList := by
  cases n with
  | ready => rfl
  | opened v version text =>
    rw [take, published_update, filter_told?, Notice.effectOn]
    split <;> rfl
  | changed v version texts =>
    cases htexts : texts.getLast? with
    | none => simp [take, Notice.effectOn, htexts]
    | some text =>
      simp only [take, Notice.effectOn, htexts, published_update, filter_told?]
      split <;> rfl
  | closed v =>
    refine (filter_told? s u v .closed).trans ?_
    rw [Notice.effectOn]
    split <;> rfl

/-! ## Notices one after the other -/

/-- Takes notices one after the other, with all that is published meanwhile. -/
def takeAll (s : Session) : List Notice → Session × List Publication
  | [] => (s, [])
  | n :: ns =>
    let (s, output) := s.notice n
    let (s, published) := s.takeAll ns
    (s, output.published ++ published)

theorem notice_of_running (h : s.phase = .running) : s.notice n = s.take n := if_pos h

theorem takeAll_cons (h : s.phase = .running) (ns : List Notice) :
    s.takeAll (n :: ns) =
      (((s.take n).1.takeAll ns).1, (s.take n).2.published ++ ((s.take n).1.takeAll ns).2) := by
  rw [takeAll, notice_of_running h]

theorem phase_take (h : s.phase = .running) : (s.take n).1.phase = .running := by
  obtain ⟨w, hw⟩ := take_state s n
  rw [hw]
  exact h

/-- The last effect on a document decides what the table holds of it. -/
theorem lookup_takeAll (h : s.phase = .running) (ns : List Notice) (u : Url) :
    (s.takeAll ns).1.workspace.buffers.lookup u =
      (lastEffect? u ns).elim (s.workspace.buffers.lookup u) (·.buffer? u) := by
  induction ns generalizing s with
  | nil => rfl
  | cons n ns ih =>
    rw [takeAll_cons h, ih (phase_take h), lookup_take, lastEffect?_cons]
    cases lastEffect? u ns <;> rfl

/-- Each effect on a document is published, and nothing else of it. -/
theorem published_takeAll (h : s.phase = .running) (ns : List Notice) (u : Url) :
    (s.takeAll ns).2.filter (·.url = u) =
      (ns.filterMap (·.effectOn u)).filterMap (s.told? u) := by
  induction ns generalizing s with
  | nil => rfl
  | cons n ns ih =>
    obtain ⟨w, hw⟩ := take_state s n
    have htold : (s.take n).1.told? u = s.told? u := by
      rw [hw]
      rfl
    rw [takeAll_cons h, List.filter_append, ih (phase_take h), htold, published_take,
      List.filterMap_cons]
    cases n.effectOn u with
    | none => rfl
    | some e =>
      rw [Option.bind_some, List.filterMap_cons]
      cases s.told? u e <;> rfl

/-- What an editor is last told of a style sheet. -/
theorem getLast?_published_takeAll (h : s.phase = .running) (hu : u.isMarkup = false)
    (ns : List Notice) :
    ((s.takeAll ns).2.filter (·.url = u)).getLast? = (lastEffect? u ns).bind (s.told? u) := by
  have htold : ∀ e, ∃ p, s.told? u e = some p := fun e => by
    cases e <;> simp [told?, hu]
  rw [published_takeAll h, lastEffect?]
  rcases List.eq_nil_or_concat (ns.filterMap (·.effectOn u)) with heffects | ⟨es, e, heffects⟩
  · rw [heffects]
    rfl
  · obtain ⟨p, hp⟩ := htold e
    rw [heffects, List.concat_eq_append, List.filterMap_append, List.getLast?_concat,
      Option.bind_some, List.filterMap_cons, hp]
    exact List.getLast?_concat

theorem phase_takeAll (h : s.phase = .running) (ns : List Notice) :
    (s.takeAll ns).1.phase = .running := by
  induction ns generalizing s with
  | nil => exact h
  | cons n ns ih => rw [takeAll_cons h]; exact ih (phase_take h)

/-! ## A session from its start -/

/-- A session runs from its start on, and no document is open then. -/
theorem started (config : Config) (registry : Registry) (d : Disk) (root : Option Url)
    (folders : List Url) :
    let s := (request { config := config, registry := registry } d (.start root folders)).2.1
    s.phase = .running ∧ s.registry = registry ∧ s.workspace.buffers = [] := by
  refine ⟨rfl, ?_⟩
  simp only [request, start, setRoot]
  split <;> exact ⟨rfl, rfl⟩

/-- **Table and diagnostics are up to date,** after any notices. -/
theorem documents_current (config : Config) (registry : Registry) (d : Disk) (root : Option Url)
    (folders : List Url) (ns : List Notice) (u : Url) :
    let s := (request { config := config, registry := registry } d (.start root folders)).2.1
    let after := (s.takeAll ns).1
    let published := ((s.takeAll ns).2.filter (·.url = u)).getLast?
    -- What is open, and what is published of it, is as the last effect left it.
    (match lastEffect? u ns with
      | some (.holds version text) =>
        after.workspace.buffers.lookup u =
          some ⟨text, if u.isMarkup then none else some (Sheet.parse text), some version⟩ ∧
        (u.isMarkup = false → published = some ⟨u, some version,
          if s.config.validates then
            (Sheet.parse text).validate (if s.config.checksProperties then some registry else none)
          else []⟩)
      | some .closed =>
        after.workspace.buffers.lookup u = none ∧
        (u.isMarkup = false → published = some ⟨u, none, []⟩)
      | none =>
        after.workspace.buffers.lookup u = none ∧ (u.isMarkup = false → published = none)) ∧
    -- Notices about other documents do nothing to this one, ...
    (∀ n : Notice, n.url? ≠ some u →
      (after.notice n).1.workspace.buffers.lookup u = after.workspace.buffers.lookup u ∧
      ∀ p ∈ (after.notice n).2.published, p.url ≠ u) ∧
    -- ... and a change without texts does nothing at all.
    (∀ version, after.notice (.changed u version []) = (after, {})) := by
  intro s after published
  obtain ⟨hphase, hregistry, hbuffers⟩ := started config registry d root folders
  have hafter : after.phase = .running := phase_takeAll hphase ns
  have hlookup := lookup_takeAll hphase ns u
  rw [hbuffers] at hlookup
  have hpublished : u.isMarkup = false → published = (lastEffect? u ns).bind (s.told? u) :=
    fun hu => getLast?_published_takeAll hphase hu ns
  refine ⟨?_, ?_, ?_⟩
  · cases hlast : lastEffect? u ns with
    | none =>
      rw [hlast] at hlookup hpublished
      exact ⟨hlookup, hpublished⟩
    | some e =>
      rw [hlast] at hlookup hpublished
      cases e with
      | closed => exact ⟨hlookup, hpublished⟩
      | holds version text =>
        refine ⟨hlookup, fun hu => (hpublished hu).trans ?_⟩
        simp [told?, hu, diagnose, s, hregistry]
  · intro n hn
    have heffect := Notice.effectOn_of_url?_ne hn
    rw [notice_of_running hafter]
    constructor
    · rw [lookup_take, heffect]
      rfl
    · intro p hp hurl
      have hmem : p ∈ (after.take n).2.published.filter (·.url = u) :=
        List.mem_filter.2 ⟨hp, decide_eq_true hurl⟩
      rw [published_take, heffect] at hmem
      simp at hmem
  · intro version
    rw [notice_of_running hafter]
    rfl

end Session

end StyleServer
