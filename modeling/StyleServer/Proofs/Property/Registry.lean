/-
  A registry filled from several files.

  * `Registry.find?_foldl_insert`, `Registry.increasing_foldl_insert`: of the definitions of a
    name the last one counts, and each name is there once, in order.
  * `PropertyTable.Shows`: a table without an order shows the same names and definitions.
-/
import Mathlib.Data.Finset.Card
import StyleServer.Property.Registry
import StyleServer.Proofs.Search.Order

namespace StyleServer

/-! ## Definitions in order -/

namespace Registry

/-- The last of the definitions of a name counts. -/
theorem find?_insertInto (d : Definition) (ds : List Definition) (name : String) :
    (insertInto d ds).find? (·.name == name) =
      if d.name = name then some d else ds.find? (·.name == name) := by
  have hcons : ∀ (e : Definition) (es : List Definition), (e :: es).find? (·.name == name) =
      if e.name = name then some e else es.find? (·.name == name) := by
    intro e es
    by_cases h : e.name = name <;> simp [h]
  induction ds with
  | nil => exact hcons d []
  | cons e es ih =>
    rw [insertInto]
    split
    · exact hcons d (e :: es)
    · split
      · next heq =>
        rw [hcons, hcons, ← heq]
        split
        · rfl
        · rfl
      · next hne =>
        rw [hcons, hcons, ih]
        -- The two names are different, so only one of them is looked for.
        split
        · next he => rw [if_neg fun hd => hne (hd.trans he.symm)]
        · rfl

theorem find?_foldl_insert (ds : List Definition) (r : Registry) (name : String) :
    (ds.foldl insert r).find? name = (ds.reverse.find? (·.name == name)).or (r.find? name) := by
  induction ds generalizing r with
  | nil => simp
  | cons d ds ih =>
    rw [List.foldl_cons, ih, List.reverse_cons, List.find?_append]
    have hd : (r.insert d).find? name = if d.name = name then some d else r.find? name :=
      find?_insertInto d r.definitions name
    rw [hd, Option.or_assoc]
    by_cases h : d.name = name <;> simp [h]

theorem mem_insertInto {d e : Definition} {ds : List Definition} (h : e ∈ insertInto d ds) :
    e = d ∨ e ∈ ds := by
  induction ds with
  | nil => exact .inl (List.mem_singleton.1 h)
  | cons f fs ih =>
    rw [insertInto] at h
    split at h
    · exact List.mem_cons.1 h
    · split at h
      · exact (List.mem_cons.1 h).imp_right (List.mem_cons_of_mem f)
      · rcases List.mem_cons.1 h with rfl | h
        · exact .inr List.mem_cons_self
        · exact (ih h).imp_right (List.mem_cons_of_mem f)

/-- A definition is put into its place. -/
theorem increasing_insertInto (d : Definition) {ds : List Definition}
    (h : Increasing (·.name) ds) : Increasing (·.name) (insertInto d ds) := by
  induction h with
  | nil => exact List.pairwise_singleton _ d
  | @cons e es hlt hes ih =>
    rw [insertInto]
    split
    · next hd =>
      refine .cons (fun f hf => ?_) (.cons hlt hes)
      rcases List.mem_cons.1 hf with rfl | hf
      · exact hd
      · exact lt_trans hd (hlt f hf)
    · next hd =>
      split
      · next heq => exact .cons (fun f hf => lt_of_eq_of_lt heq (hlt f hf)) hes
      · next hne =>
        have hed : e.name < d.name := lt_of_le_of_ne (not_lt.1 hd) (Ne.symm hne)
        refine .cons (fun f hf => ?_) ih
        rcases mem_insertInto hf with rfl | hf
        · exact hed
        · exact hlt f hf

theorem increasing_foldl_insert (ds : List Definition) {r : Registry}
    (h : Increasing (·.name) r.definitions) :
    Increasing (·.name) (ds.foldl insert r).definitions := by
  induction ds generalizing r with
  | nil => exact h
  | cons d ds ih => exact ih (increasing_insertInto d h)

end Registry

section
variable {α : Type} {key : α → String} {l l' : List α}

/-- The only member of a key is found. -/
theorem Increasing.find?_eq_some_iff (h : Increasing key l) {k : String} {a : α} :
    l.find? (key · == k) = some a ↔ a ∈ l ∧ key a = k := by
  constructor
  · intro ha
    exact ⟨List.mem_of_find?_eq_some ha, by simpa using List.find?_some ha⟩
  · rintro ⟨hmem, rfl⟩
    induction h with
    | nil => simp at hmem
    | @cons b l hlt _ ih =>
      rcases List.mem_cons.1 hmem with rfl | hmem
      · simp
      · have hne : (key b == key a) = false := beq_eq_false_iff_ne.2 (ne_of_lt (hlt a hmem))
        rw [List.find?_cons, hne]
        exact ih hmem

theorem Increasing.eq_of_key (h : Increasing key l) {a b : α} (ha : a ∈ l) (hb : b ∈ l)
    (hab : key a = key b) : a = b :=
  Option.some.inj ((h.find?_eq_some_iff.2 ⟨ha, hab⟩).symm.trans (h.find?_eq_some_iff.2 ⟨hb, rfl⟩))

/-- Sorting brings members that their keys tell apart into their order. -/
theorem Increasing.mergeSort_eq (h : Increasing key l) (hperm : l'.Perm l) :
    l'.mergeSort (fun a b => decide (key a ≤ key b)) = l := by
  have hsorted : (l'.mergeSort fun a b => decide (key a ≤ key b)).Pairwise
      fun a b => key a ≤ key b := by
    refine (List.pairwise_mergeSort ?_ ?_ l').imp fun hle => of_decide_eq_true hle
    · intro a b c hab hbc
      simp only [decide_eq_true_eq] at hab hbc ⊢
      exact le_trans hab hbc
    · intro a b
      simp only [Bool.or_eq_true, decide_eq_true_eq]
      exact le_total _ _
  refine ((List.mergeSort_perm l' _).trans hperm).eq_of_pairwise ?_ hsorted
    (h.imp fun hlt => le_of_lt hlt)
  intro a b ha hb hab hba
  exact h.eq_of_key (hperm.mem_iff.1 (List.mem_mergeSort.1 ha)) hb (le_antisymm hab hba)

end

/-! ## A table -/

/-- The content of a registry as a table: each definition under its name, in no order. -/
structure PropertyTable where
  byName : Std.HashMap String Definition
  version : Option String

namespace PropertyTable

def empty : PropertyTable := ⟨∅, none⟩

/-- With one more definition, in place of one of the same name. -/
def insert (t : PropertyTable) (d : Definition) : PropertyTable :=
  { t with byName := t.byName.insert d.name d }

/-- With the version that a file gives. -/
def setVersion (t : PropertyTable) (file : PropertyFile) : PropertyTable :=
  match file.knowledge with
  | none => t
  | some info => if info.version.isSome then { t with version := info.version } else t

/-- With the content of a property file. -/
def addFile (t : PropertyTable) (file : PropertyFile) : PropertyTable :=
  file.properties.foldl insert (t.setVersion file)

/-- The names, sorted. -/
def names (t : PropertyTable) : List String := t.byName.keys.mergeSort

/-- The definitions, sorted by their names. -/
def definitions (t : PropertyTable) : List Definition :=
  (t.byName.toList.map Prod.snd).mergeSort fun d e : Definition =>
    decide (d.name ≤ e.name)

/-- What a table and a registry have in common. -/
structure Shows (t : PropertyTable) (r : Registry) : Prop where
  find : ∀ name : String, t.byName[name]? = r.find? name
  version : t.version = r.version

variable {t : PropertyTable} {r : Registry}

theorem shows_empty : empty.Shows .empty where
  find _ := Std.HashMap.getElem?_empty
  version := rfl

theorem Shows.insert (h : t.Shows r) (d : Definition) : (t.insert d).Shows (r.insert d) where
  find := by
    intro name
    have hfind : (r.insert d).find? name = if d.name = name then some d else r.find? name :=
      Registry.find?_insertInto d r.definitions name
    rw [PropertyTable.insert, Std.HashMap.getElem?_insert, hfind, h.find]
    simp only [beq_iff_eq]
  version := h.version

theorem Shows.foldl_insert (h : t.Shows r) (ds : List Definition) :
    (ds.foldl PropertyTable.insert t).Shows (ds.foldl Registry.insert r) := by
  induction ds generalizing t r with
  | nil => exact h
  | cons d ds ih => exact ih (h.insert d)

theorem Shows.addFile (h : t.Shows r) (file : PropertyFile) :
    (t.addFile file).Shows (r.addFile file) := by
  refine Shows.foldl_insert ⟨?_, ?_⟩ file.properties
  · intro name
    have hsame : (t.setVersion file).byName = t.byName := by
      unfold setVersion
      split
      · rfl
      · split <;> rfl
    rw [hsame]
    exact h.find name
  · have hversion := h.version
    unfold setVersion
    split
    · next hnone => simp [hnone, hversion]
    · next info hsome =>
      cases hv : info.version with
      | none => simp [hsome, hv, hversion]
      | some v => simp [hsome, hv]

theorem Shows.foldl_addFile (h : t.Shows r) (files : List PropertyFile) :
    (files.foldl PropertyTable.addFile t).Shows (files.foldl Registry.addFile r) := by
  induction files generalizing t r with
  | nil => exact h
  | cons file files ih => exact ih (h.addFile file)

/-- **What a table lists, sorted,** is what the registry lists. -/
theorem Shows.listed (h : t.Shows r) (hr : Increasing (·.name) r.definitions) :
    t.names = r.names ∧ t.definitions = r.definitions ∧ t.byName.size = r.size ∧
      ∀ (name : String) (d : Definition), t.byName[name]? = some d → d.name = name := by
  have hmem : ∀ (name : String) (d : Definition), t.byName[name]? = some d ↔
      d ∈ r.definitions ∧ d.name = name := by
    intro name d
    rw [h.find]
    exact hr.find?_eq_some_iff
  have hpairs : t.byName.toList.Perm (r.definitions.map fun d => (d.name, d)) := by
    refine (List.perm_ext_iff_of_nodup ?_ ?_).2 ?_
    · refine List.Nodup.of_map Prod.fst ?_
      rw [Std.HashMap.map_fst_toList_eq_keys]
      exact Std.HashMap.nodup_keys
    · exact hr.nodup.map fun _ _ heq => (Prod.mk.inj heq).2
    · rintro ⟨name, d⟩
      rw [Std.HashMap.mem_toList_iff_getElem?_eq_some, hmem, List.mem_map]
      constructor
      · rintro ⟨hd, rfl⟩
        exact ⟨d, hd, rfl⟩
      · rintro ⟨e, he, heq⟩
        obtain ⟨rfl, rfl⟩ := Prod.mk.inj heq
        exact ⟨he, rfl⟩
  have hkeys : t.byName.keys.Perm r.names := by
    have := hpairs.map Prod.fst
    rwa [Std.HashMap.map_fst_toList_eq_keys, List.map_map] at this
  have hvalues : (t.byName.toList.map Prod.snd).Perm r.definitions := by
    have := hpairs.map Prod.snd
    rwa [List.map_map, show (Prod.snd ∘ fun d : Definition => (d.name, d)) = id from rfl,
      List.map_id] at this
  refine ⟨?_, hr.mergeSort_eq hvalues, ?_, fun name d hd => ((hmem name d).1 hd).2⟩
  · have hnames : Increasing id r.names := List.pairwise_map.2 hr
    exact hnames.mergeSort_eq hkeys
  · rw [← Std.HashMap.length_keys, hkeys.length_eq, Registry.names, List.length_map]
    rfl

end PropertyTable

end StyleServer
