/-
  Searching documents held in memory.

  * `Documents.get?_insert`, `Documents.mem_list`: documents are known by the texts they give.
  * `Documents.findVariable_isSome`: a variable is found exactly when some other document that
    matches the pattern declares it.
-/
import StyleServer.Proofs.Search.Canonical
import StyleServer.Search.Documents
import StyleServer.Workspace.Basic

namespace StyleServer

/-- A sheet declares a variable. -/
def Sheet.Declares (s : Sheet) (name : String) : Prop := name ∈ s.customProperties.map (·.name)

instance (s : Sheet) (name : String) : Decidable (s.Declares name) :=
  inferInstanceAs (Decidable (_ ∈ _))

theorem variableIn?_isSome {name : String} {u : Url} {s : Sheet} :
    (variableIn? name u s).isSome = true ↔ s.Declares name := by
  simp [variableIn?, Sheet.findCustom?, Sheet.Declares, List.find?_isSome]

namespace Documents

theorem lookup_insertInto (u v : Url) (text : String) (entries : List (Url × String)) :
    (insertInto u text entries).lookup v = if v = u then some text else entries.lookup v := by
  induction entries with
  | nil => exact Table.lookup_cons ..
  | cons entry entries ih =>
    obtain ⟨w, t⟩ := entry
    rw [insertInto]
    by_cases hw : u = w
    · rw [if_pos hw, Table.lookup_cons, Table.lookup_cons, ← hw]
      split_ifs <;> rfl
    · rw [if_neg hw]
      by_cases hle : u.le w = true
      · rw [if_pos hle, Table.lookup_cons]
      · rw [if_neg hle, Table.lookup_cons, Table.lookup_cons, ih]
        by_cases hv : v = u
        · rw [if_pos hv, if_pos hv, if_neg (hv ▸ hw)]
        · rw [if_neg hv, if_neg hv]

theorem get?_insert (d : Documents) (u v : Url) (text : String) :
    (d.insert u text).get? v = if v = u then some text else d.get? v :=
  lookup_insertInto u v text d.entries

theorem get?_isSome {d : Documents} {u : Url} :
    (d.get? u).isSome = true ↔ u ∈ d.entries.map Prod.fst := by
  rw [get?]
  induction d.entries with
  | nil => simp
  | cons entry entries ih =>
    obtain ⟨w, t⟩ := entry
    rw [Table.lookup_cons, List.map_cons, List.mem_cons, ← ih]
    split_ifs with hw
    · simp [hw]
    · simp [hw]

theorem mem_list {d : Documents} {pattern : String} {u : Url} :
    u ∈ d.list pattern ↔ (d.get? u).isSome = true ∧ u.matchesGlob pattern = true := by
  rw [list, List.mem_filter, get?_isSome]

theorem texts_provider (d : Documents) (us : List Url) :
    d.provider.texts () us = us.map fun u => (u, d.get? u) := by
  induction us with
  | nil => rfl
  | cons u us ih => exact congrArg ((u, d.get? u) :: ·) ih

/-- A variable is found exactly when another document declares it. -/
theorem findVariable_isSome {d : Documents} {name : String} {origin : Url} {pattern : String} :
    (d.provider.findVariable name origin pattern none ()).found.isSome = true ↔
      ∃ u text, d.get? u = some text ∧ u ≠ origin ∧ u.matchesGlob pattern = true ∧
        (Sheet.parse text).Declares name := by
  have hlist : d.provider.list () pattern = some (d.list pattern) := rfl
  rw [Provider.findVariable, Provider.search_listed hlist, Provider.walk_found,
    Visitor.finds_plain, texts_provider]
  simp only [List.findSome?_map, List.findSome?_isSome_iff, mem_searchOrder, mem_list]
  constructor
  · rintro ⟨u, ⟨⟨hsome, hpattern⟩, hne⟩, hfound⟩
    obtain ⟨text, htext⟩ := Option.isSome_iff_exists.1 hsome
    have hdeclares : (variableIn? name u (Sheet.parse text)).isSome = true := by
      simpa [htext] using hfound
    exact ⟨u, text, htext, by simpa using hne, hpattern, variableIn?_isSome.1 hdeclares⟩
  · rintro ⟨u, text, htext, hne, hpattern, hdeclares⟩
    refine ⟨u, ⟨⟨by simp [htext], hpattern⟩, by simpa using hne⟩, ?_⟩
    simpa [htext] using variableIn?_isSome.2 hdeclares

end Documents

end StyleServer
