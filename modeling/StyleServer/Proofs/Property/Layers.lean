/-
  Property files in layers.

  The built-in properties, single files and directories are loaded one after another.  What
  cannot be loaded is passed over.

  * `Registry.find?_foldl_addFile`, `Registry.version_foldl_addFile`: of all definitions of a name
    the last counts, and of all versions.
  * `Registry.take_eq`: a step adds the files that it can load, and no others.
    `Registry.after_eq`: so do several steps.
  * `Disk.mem_propertyNames`: the files of a directory.
  * `Registry.Layered`, `Registry.after_layered`: what is known after any steps.
-/
import StyleServer.Property.Directory
import StyleServer.Proofs.Property.Registry

namespace StyleServer

/-! ## Several files -/

namespace Registry

variable {r : Registry}

theorem version_foldl_insert (ds : List Definition) (r : Registry) :
    (ds.foldl insert r).version = r.version := by
  induction ds generalizing r with
  | nil => rfl
  | cons d ds ih => exact ih (r.insert d)

theorem find?_addFile (r : Registry) (file : PropertyFile) (name : String) :
    (r.addFile file).find? name =
      (file.properties.filter (·.name == name)).getLast?.or (r.find? name) := by
  rw [addFile, find?_foldl_insert, ← List.head?_filter, List.filter_reverse, List.head?_reverse]
  rfl

/-- **The last definition of a name** in all files counts. -/
theorem find?_foldl_addFile (files : List PropertyFile) (r : Registry) (name : String) :
    (files.foldl addFile r).find? name =
      ((files.flatMap (·.properties)).filter (·.name == name)).getLast?.or (r.find? name) := by
  induction files generalizing r with
  | nil => rfl
  | cons file files ih =>
    rw [List.foldl_cons, ih, find?_addFile, List.flatMap_cons, List.filter_append,
      List.getLast?_append, Option.or_assoc]

/-- **The last version** that a file gives counts. -/
theorem version_foldl_addFile (files : List PropertyFile) (r : Registry) :
    (files.foldl addFile r).version =
      (files.filterMap fun file => file.knowledge.bind (·.version)).getLast?.or r.version := by
  induction files generalizing r with
  | nil => rfl
  | cons file files ih =>
    rw [List.foldl_cons, ih, addFile, version_foldl_insert, List.filterMap_cons]
    cases file.knowledge.bind (·.version) with
    | none => rfl
    | some v =>
      dsimp only
      rw [List.getLast?_cons]
      cases (files.filterMap fun file => file.knowledge.bind (·.version)).getLast? with
      | none => rfl
      | some w => rfl

theorem increasing_foldl_addFile (files : List PropertyFile)
    (h : Increasing (·.name) r.definitions) :
    Increasing (·.name) (files.foldl addFile r).definitions := by
  induction files generalizing r with
  | nil => exact h
  | cons file files ih => exact ih (increasing_foldl_insert file.properties h)

theorem mem_names_iff {name : String} : name ∈ r.names ↔ (r.find? name).isSome = true := by
  rw [names, List.mem_map, find?, List.find?_isSome]
  simp only [beq_iff_eq]

/-- Each known name counts once. -/
theorem size_eq_card (h : Increasing (·.name) r.definitions) : r.size = r.names.toFinset.card := by
  have hnodup : r.names.Nodup := (List.pairwise_map.2 h : Increasing id r.names).nodup
  rw [List.toFinset_card_of_nodup hnodup, names, List.length_map]
  rfl

/-- **The known names** are those that the files define. -/
theorem mem_names_foldl_addFile {files : List PropertyFile} {name : String} :
    name ∈ (files.foldl addFile empty).names ↔
      name ∈ (files.flatMap (·.properties)).map (·.name) := by
  have hempty : empty.find? name = none := rfl
  rw [mem_names_iff, find?_foldl_addFile, hempty, Option.or_none, Option.isSome_iff_ne_none, ne_eq,
    List.getLast?_eq_none_iff, List.filter_eq_nil_iff, List.mem_map]
  simp only [beq_iff_eq, not_forall, not_not, exists_prop]

end Registry

/-! ## Directories -/

namespace Disk

variable {d : Disk} {current p : Path} {directory : WrittenPath}

/-- The names of the property files in a directory, in order. -/
def propertyNames (d : Disk) (p : Path) : List String := (d.children p).filter isPropertyFileName

theorem mem_children {name : String} : name ∈ d.children p ↔ (d.find? (p ++ [name])).isSome := by
  have hfind : d.find? (p ++ [name]) = d.entries.lookup (p ++ [name]) := if_neg (by simp)
  have hsome : (d.entries.lookup (p ++ [name])).isSome = true ↔
      ∃ e ∈ d.entries, p ++ [name] = e.1 := by
    rw [Option.isSome_iff_ne_none, ne_eq, List.lookup_eq_none_iff]
    simp
  rw [hfind, hsome, children, List.mem_mergeSort, List.mem_filterMap]
  refine exists_congr fun e => and_congr_right fun _ => ?_
  rw [Option.ite_none_right_eq_some]
  constructor
  · rintro ⟨⟨-, hinit⟩, hlast⟩
    rw [← hinit, List.dropLast_append_getLast? name hlast]
  · intro h
    rw [← h]
    simp

/-- **The files of a directory** are what stands in it under the name of a property file. -/
theorem mem_propertyNames {name : String} : name ∈ d.propertyNames p ↔
    (d.find? (p ++ [name])).isSome ∧ isPropertyFileName name = true := by
  rw [propertyNames, List.mem_filter, mem_children]

/-- They are in order. -/
theorem propertyNames_sorted (d : Disk) (p : Path) : (d.propertyNames p).Pairwise (· ≤ ·) := by
  refine List.Pairwise.filter _ ((List.pairwise_mergeSort ?_ ?_ _).imp fun hle => ?_)
  · intro a b c hab hbc
    simp only [decide_eq_true_eq] at hab hbc ⊢
    exact le_trans hab hbc
  · intro a b
    simp only [Bool.or_eq_true, decide_eq_true_eq]
    exact le_total _ _
  · exact of_decide_eq_true hle

theorem isPropertyFileName_iff {name : String} :
    isPropertyFileName name = true ↔ ∃ stem : Text, stem ≠ [] ∧
      name = String.ofList (stem ++ ".toml".toList) := by
  rw [isPropertyFileName, Bool.and_eq_true, decide_eq_true_eq, List.isSuffixOf_iff_suffix]
  constructor
  · rintro ⟨hlength, stem, hstem⟩
    refine ⟨stem, ?_, ?_⟩
    · rintro rfl
      rw [← hstem] at hlength
      simp at hlength
    · rw [hstem, String.ofList_toList]
  · rintro ⟨stem, hne, rfl⟩
    rw [String.toList_ofList]
    refine ⟨?_, stem, rfl⟩
    have := List.length_pos_iff.2 hne
    simp
    omega

end Disk

/-! ## Steps -/

/-- A step in which a registry is filled. -/
inductive LoadStep where
  /-- The built-in properties. -/
  | builtin
  /-- The file that a path leads to, seen from `current`. -/
  | file (d : Disk) (current : Path) (path : WrittenPath)
  /-- The directory that a path leads to. -/
  | directory (d : Disk) (current : Path) (path : WrittenPath)

namespace LoadStep

/-- What a step makes of a registry, and how many files it has loaded. -/
def load (r : Registry) : LoadStep → Except LoadError (Registry × Nat)
  | builtin => .ok (r.addFile .builtin, 1)
  | file d current path => (r.loadFile d current path).map (·, 1)
  | directory d current path => r.loadDirectory d current path

/-- The files that a step can read and decode, in order. -/
def files : LoadStep → List PropertyFile
  | builtin => [.builtin]
  | file d current path => (d.propertyFile current path).toOption.toList
  | directory d current path =>
    ((d.propertyPaths current path).toOption.getD []).filterMap fun path =>
      (d.propertyFile current path).toOption

end LoadStep

namespace Registry

/-- A step that fails is passed over. -/
def take (r : Registry) (step : LoadStep) : Registry :=
  match step.load r with
  | .ok (r, _) => r
  | .error _ => r

/-- What is known after several steps. -/
def after (r : Registry) (steps : List LoadStep) : Registry := steps.foldl take r

/-- What cannot be read or decoded changes nothing and does not count. -/
theorem loadFiles_eq (d : Disk) (current : Path) (r : Registry) (paths : List WrittenPath) :
    loadFiles d current r paths =
      ((paths.filterMap fun path => (d.propertyFile current path).toOption).foldl addFile r,
        (paths.filterMap fun path => (d.propertyFile current path).toOption).length) := by
  induction paths generalizing r with
  | nil => rfl
  | cons path paths ih =>
    rw [loadFiles, loadFile, List.filterMap_cons]
    cases d.propertyFile current path with
    | error e => exact ih r
    | ok file =>
      dsimp only [Except.map, Except.toOption]
      rw [ih]
      rfl

end Registry

/-- **What one step does:** it adds its files and counts them, or it fails and has none. -/
theorem LoadStep.load_spec (step : LoadStep) (r : Registry) :
    step.load r = .ok (step.files.foldl Registry.addFile r, step.files.length) ∨
      step.files = [] ∧ ∃ e, ∀ r, step.load r = .error e := by
  cases step with
  | builtin =>
    refine .inl ?_
    rw [load, files, List.foldl_cons, List.foldl_nil, List.length_singleton]
  | file d current path =>
    cases h : d.propertyFile current path with
    | error e =>
      refine .inr ⟨by rw [files, h]; rfl, e, fun r => ?_⟩
      rw [load, Registry.loadFile, h]
      rfl
    | ok file =>
      refine .inl ?_
      rw [load, files, Registry.loadFile, h]
      rfl
  | directory d current path =>
    cases h : d.propertyPaths current path with
    | error e =>
      refine .inr ⟨by rw [files, h]; rfl, e, fun r => ?_⟩
      rw [load, Registry.loadDirectory, h]
      rfl
    | ok paths =>
      refine .inl ?_
      rw [load, files, Registry.loadDirectory, h]
      exact congrArg Except.ok (Registry.loadFiles_eq d current r paths)

/-- A file is added as a whole, or not at all. -/
theorem LoadStep.load_file (d : Disk) (current : Path) (path : WrittenPath) (r : Registry) :
    (∀ text file, (d.resolve current path).bind d.read = .ok text →
      PropertyFile.parse? text = some file →
        (LoadStep.file d current path).load r = .ok (r.addFile file, 1)) ∧
    ((∀ text, (d.resolve current path).bind d.read = .ok text → PropertyFile.parse? text = none) →
      ∃ e, (LoadStep.file d current path).load r = .error e) := by
  rw [load, Registry.loadFile, Disk.propertyFile]
  refine ⟨fun text file htext hfile => ?_, fun h => ?_⟩
  · rw [htext]
    dsimp only
    rw [hfile]
    rfl
  · cases htext : (d.resolve current path).bind d.read with
    | error e => exact ⟨_, rfl⟩
    | ok text =>
      dsimp only
      rw [h text htext]
      exact ⟨_, rfl⟩

namespace Registry

theorem take_eq (r : Registry) (step : LoadStep) : r.take step = step.files.foldl addFile r := by
  rcases step.load_spec r with h | ⟨hfiles, e, h⟩
  · rw [take, h]
  · rw [take, h, hfiles]
    rfl

/-- **What several steps do:** they add their files one after another. -/
theorem after_eq (r : Registry) (steps : List LoadStep) :
    r.after steps = (steps.flatMap LoadStep.files).foldl addFile r := by
  induction steps generalizing r with
  | nil => rfl
  | cons step steps ih =>
    rw [after, List.foldl_cons, ← after, ih, take_eq, List.flatMap_cons, List.foldl_append]

/-- A registry made of directories has gone through such steps. -/
theorem withDirectories_eq (d : Disk) (current : Path) (directories : List String) :
    withDirectories d current directories = empty.after
      (.builtin :: directories.map fun text => .directory d current (.ofText text)) := by
  rw [withDirectories, after, List.foldl_cons, List.foldl_map]
  rfl

end Registry

/-! ## What is known -/

namespace LoadStep

/-- All files that steps can read and decode, in order. -/
def allFiles (steps : List LoadStep) : List PropertyFile := steps.flatMap files

/-- All definitions of those files, in order. -/
def definitions (steps : List LoadStep) : List Definition :=
  (allFiles steps).flatMap (·.properties)

/-- All versions that those files give, in order. -/
def versions (steps : List LoadStep) : List String :=
  (allFiles steps).filterMap fun file => file.knowledge.bind (·.version)

end LoadStep

/-- The property files of a directory. -/
structure Disk.ListsFiles (d : Disk) (current : Path) (directory : WrittenPath) : Prop where
  /-- Nothing stands there, and nothing is loaded. -/
  missing : (∀ p, d.resolve current directory = .ok p → d.find? p = none) →
    ∀ r : Registry, r.loadDirectory d current directory = .ok (r, 0)
  /-- In a directory these are what has the name of a property file, in the order of names. -/
  names : ∀ p, d.resolve current directory = .ok p → d.find? p = some .directory →
    d.propertyPaths current directory = .ok ((d.propertyNames p).map directory.join) ∧
      (d.propertyNames p).Pairwise (· ≤ ·) ∧
      ∀ name, name ∈ d.propertyNames p ↔ (d.find? (p ++ [name])).isSome ∧
        ∃ stem : Text, stem ≠ [] ∧ name = String.ofList (stem ++ ".toml".toList)
  /-- One that cannot be loaded might as well be left out. -/
  skipped : ∀ (r : Registry) front path behind e, d.propertyFile current path = .error e →
    Registry.loadFiles d current r (front ++ path :: behind) =
      Registry.loadFiles d current r (front ++ behind)

theorem Disk.listsFiles (d : Disk) (current : Path) (directory : WrittenPath) :
    d.ListsFiles current directory where
  missing := by
    intro h r
    rw [Registry.loadDirectory, propertyPaths]
    cases hp : d.resolve current directory with
    | error e => rfl
    | ok p =>
      dsimp only
      rw [h p hp]
      rfl
  names := by
    intro p hp hdirectory
    refine ⟨?_, propertyNames_sorted d p, fun name => ?_⟩
    · rw [propertyPaths, hp]
      dsimp only
      rw [hdirectory]
      rfl
    · rw [mem_propertyNames, isPropertyFileName_iff]
  skipped := by
    intro r front path behind e h
    have hnone : (d.propertyFile current path).toOption = none := by
      rw [h]
      rfl
    rw [Registry.loadFiles_eq, Registry.loadFiles_eq, List.filterMap_append, List.filterMap_append,
      List.filterMap_cons, hnone]

/-- What is known after steps, and what the steps report. -/
structure Registry.Layered (steps : List LoadStep) : Prop where
  /-- The last definition of a name counts, and there is none without one. -/
  find : ∀ name, (empty.after steps).find? name =
    ((LoadStep.definitions steps).filter (·.name == name)).getLast?
  /-- The last version that is given counts, and files without one leave it. -/
  version : (empty.after steps).version = (LoadStep.versions steps).getLast?
  /-- Each name counts once. -/
  size : (empty.after steps).size =
    ((LoadStep.definitions steps).map (·.name)).toFinset.card
  increasing : (empty.after steps).names.Pairwise (· < ·)
  /-- A table that the same files were put into has the same names, definitions and size, and
      each definition stands under its own name. -/
  table : ∃ t, t = (LoadStep.allFiles steps).foldl PropertyTable.addFile .empty ∧
    t.names = (empty.after steps).names ∧ t.definitions = (empty.after steps).definitions ∧
    t.definitions.map (·.name) = t.names ∧ t.byName.size = (empty.after steps).size ∧
    t.version = (empty.after steps).version ∧
    ∀ (name : String) (d : Definition), t.byName[name]? = some d → d.name = name
  /-- A file is added as a whole when its text can be read and decoded, or else not at all. -/
  file : ∀ d current path, .file d current path ∈ steps → ∀ r,
    (∀ text file, (d.resolve current path).bind d.read = .ok text →
      PropertyFile.parse? text = some file →
        (LoadStep.file d current path).load r = .ok (r.addFile file, 1)) ∧
    ((∀ text, (d.resolve current path).bind d.read = .ok text → PropertyFile.parse? text = none) →
      ∃ e, (LoadStep.file d current path).load r = .error e)
  /-- Of a directory, its property files are loaded, in order. -/
  directory : ∀ d current path, .directory d current path ∈ steps → d.ListsFiles current path
  /-- A step that does not fail reports how many files it has added. -/
  counted : ∀ step ∈ steps, ∀ r r' n, step.load r = .ok (r', n) →
    r' = step.files.foldl addFile r ∧ n = step.files.length
  /-- A step that fails might as well be left out. -/
  failed : ∀ front step behind r e, steps = front ++ step :: behind → step.load r = .error e →
    empty.after steps = empty.after (front ++ behind)

/-- **Layers of property files:** after any steps, the last definition of each name is known, the
    last version, and nothing else. -/
theorem Registry.after_layered (steps : List LoadStep) : Layered steps := by
  have hafter : empty.after steps = (LoadStep.allFiles steps).foldl addFile empty :=
    after_eq empty steps
  have hordered : Increasing (·.name) (empty.after steps).definitions := by
    rw [hafter]
    exact increasing_foldl_addFile _ .nil
  exact {
    find := by
      intro name
      rw [hafter, find?_foldl_addFile]
      exact Option.or_none
    version := by
      rw [hafter, version_foldl_addFile]
      exact Option.or_none
    size := by
      rw [size_eq_card hordered]
      congr 1
      ext name
      rw [List.mem_toFinset, List.mem_toFinset, hafter, mem_names_foldl_addFile]
      rfl
    increasing := List.pairwise_map.2 hordered
    table := by
      have hshows := PropertyTable.shows_empty.foldl_addFile (LoadStep.allFiles steps)
      rw [← hafter] at hshows
      obtain ⟨hnames, hdefinitions, hsize, hkeys⟩ := hshows.listed hordered
      refine ⟨_, rfl, hnames, hdefinitions, ?_, hsize, hshows.version, hkeys⟩
      rw [hdefinitions, hnames]
      rfl
    file := fun d current path _ r => LoadStep.load_file d current path r
    directory := fun d current path _ => d.listsFiles current path
    counted := by
      intro step _ r r' n h
      rcases step.load_spec r with hload | ⟨-, e, hload⟩
      · obtain ⟨rfl, rfl⟩ := Prod.mk.inj (Except.ok.inj (hload.symm.trans h))
        exact ⟨rfl, rfl⟩
      · rw [hload] at h
        cases h
    failed := by
      rintro front step behind r e rfl h
      rcases step.load_spec r with hload | ⟨hfiles, -⟩
      · rw [hload] at h
        cases h
      · rw [after_eq, after_eq, List.flatMap_append, List.flatMap_append, List.flatMap_cons, hfiles]
        rfl }

end StyleServer
