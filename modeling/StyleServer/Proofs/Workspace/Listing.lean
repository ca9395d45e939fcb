/-
  Documents that are left out.

  The documents of a workspace are those that are open and those on the disk, and only the
  latter are compared with what is to be left out:

  * `Workspace.mem_list`: where a document that is listed comes from.
  * `Workspace.Excludes`: a URL leads below the root, along names that are to be left out.
  * `Workspace.mem_list_of_excludes`: a document that is to be left out is listed exactly when it
    is open and matches the pattern, if the pattern has no component for `.` or `..`.
-/
import StyleServer.Proofs.Disk.Listing
import StyleServer.Proofs.Search.Order
import StyleServer.Workspace.Basic

namespace StyleServer

namespace Workspace

variable {w : Workspace} {d : Disk} {pattern : String} {urls : List Url} {u : Url}

/-- A document that is listed is open, or listed from the disk. -/
theorem mem_list (h : w.list d pattern = .ok urls) :
    u ∈ urls ↔ (u ∈ w.buffers.map (·.1) ∧ u.matchesGlob pattern = true) ∨
      ∃ root ∈ w.root, ∃ files ∈ d.listing? root pattern w.settings.exclude, u ∈ files := by
  have hurls : ∀ files, urls = (((w.buffers.map (·.1)).filter (·.matchesGlob pattern) ++
      files).mergeSort Url.le).eraseReps → (u ∈ urls ↔
        (u ∈ w.buffers.map (·.1) ∧ u.matchesGlob pattern = true) ∨ u ∈ files) := by
    intro files hurls
    rw [hurls, mem_eraseReps, List.mem_mergeSort, List.mem_append, List.mem_filter]
  simp only [list] at h
  cases hroot : w.root with
  | none =>
    rw [hroot] at h
    rw [hurls [] (Except.ok.inj h).symm]
    simp
  | some root =>
    simp only [hroot] at h
    cases hfiles : d.listing? root pattern w.settings.exclude with
    | none => simp [hfiles] at h
    | some files =>
      rw [hfiles] at h
      rw [hurls files (Except.ok.inj h).symm]
      simp [hfiles]

/-- The documents are listed unless the pattern is malformed. -/
theorem exists_list {root : WrittenPath} (hroot : w.root = some root)
    (h : (d.listing? root pattern w.settings.exclude).isSome = true) :
    ∃ urls, w.list d pattern = .ok urls := by
  obtain ⟨files, hfiles⟩ := Option.isSome_iff_exists.1 h
  simp only [list, hroot, hfiles]
  exact ⟨_, rfl⟩

/-- A URL leads to a place below the root that is to be left out. -/
def Excludes (w : Workspace) (u : Url) : Prop :=
  ∃ root top rest, w.root = some root ∧ root.place? = some top ∧ u.place? = some (top ++ rest) ∧
    isExcluded w.settings.exclude ("/".intercalate rest) = true

/-- **Only open documents are listed although they are to be left out.** -/
theorem mem_list_of_excludes (hd : d.Proper) (hpattern : avoidsDots pattern = true)
    (hlist : w.list d pattern = .ok urls) (hu : w.Excludes u) :
    u ∈ urls ↔ u ∈ w.buffers.map (·.1) ∧ u.matchesGlob pattern = true := by
  rw [mem_list hlist, or_iff_left]
  rintro ⟨root, hroot, files, hfiles, hmem⟩
  obtain ⟨root', top, rest, hroot', htop, hplace, hexcluded⟩ := hu
  obtain rfl : root = root' := Option.some.inj (hroot.symm.trans hroot')
  obtain ⟨rest', hrest, hkept⟩ := Disk.mem_listing hd htop hpattern hfiles hmem hplace
  rw [List.append_cancel_left hrest, hkept] at hexcluded
  exact absurd hexcluded (by simp)

/-- A workspace with a root. -/
def rooted : Workspace := { root := some (.ofText "/ROOT") }

/-- A style sheet of a package, which is to be left out. -/
def packageUrl : Url := .ofPath (.ofText "/ROOT/node_modules/x.uss")

/-- A disk with this style sheet and another one. -/
def packageDisk : Disk :=
  (Disk.empty.write ["ROOT", "node_modules", "x.uss"] (.file (some ""))).write ["ROOT", "a.uss"]
    (.file (some ""))

theorem mem_list_of_excludes_package : rooted.Excludes packageUrl ∧
    ∃ urls, rooted.list packageDisk sheetPattern = .ok urls ∧ packageUrl ∉ urls := by
  have hexcludes : rooted.Excludes packageUrl :=
    ⟨.ofText "/ROOT", ["ROOT"], ["node_modules", "x.uss"], by decide +kernel⟩
  obtain ⟨urls, hurls⟩ : ∃ urls, rooted.list packageDisk sheetPattern = .ok urls :=
    exists_list rfl (by decide +kernel)
  have hiff : packageUrl ∈ urls ↔ _ :=
    mem_list_of_excludes (by decide +kernel) (by decide +kernel) hurls hexcludes
  exact ⟨hexcludes, urls, hurls, fun hmem => absurd (hiff.1 hmem).1 (by decide)⟩

/-- The workspace with the style sheet of the package open. -/
def packageOpened : Workspace := rooted.openBuffer packageUrl (.of packageUrl "" (some 1))

/-- A workspace that leaves out one file. -/
def leavingOut : Workspace := { rooted with settings := { exclude := ["a/x.uss"] } }

/-- The file that is left out. -/
def leftOutUrl : Url := .ofPath (.ofText "/ROOT/a/x.uss")

/-- A disk with this file. -/
def leftOutDisk : Disk := Disk.empty.write ["ROOT", "a", "x.uss"] (.file (some ""))

/-- A document that is to be left out is listed when it is open, and a file when the pattern
    leads to it through a dot. -/
theorem excluded_listed :
    (packageOpened.Excludes packageUrl ∧
      ∃ urls, packageOpened.list .empty sheetPattern = .ok urls ∧ packageUrl ∈ urls) ∧
    (leavingOut.Excludes leftOutUrl ∧
      ∃ urls, leavingOut.list leftOutDisk "a/./x.uss" = .ok urls ∧ leftOutUrl ∈ urls) := by
  refine ⟨⟨?_, ?_⟩, ?_, ?_⟩
  · exact ⟨.ofText "/ROOT", ["ROOT"], ["node_modules", "x.uss"], by decide +kernel⟩
  · obtain ⟨urls, hurls⟩ : ∃ urls, packageOpened.list .empty sheetPattern = .ok urls :=
      exists_list rfl (by decide +kernel)
    exact ⟨urls, hurls, (mem_list hurls).2 (.inl (by decide +kernel))⟩
  · exact ⟨.ofText "/ROOT", ["ROOT"], ["a", "x.uss"], by decide +kernel⟩
  · have hfiles : leftOutDisk.listing? (.ofText "/ROOT") "a/./x.uss" ["a/x.uss"] =
        some [leftOutUrl] := by decide +kernel
    obtain ⟨urls, hurls⟩ : ∃ urls, leavingOut.list leftOutDisk "a/./x.uss" = .ok urls :=
      exists_list rfl (by decide +kernel)
    exact ⟨urls, hurls, (mem_list hurls).2 (.inr ⟨_, rfl, _, hfiles, List.mem_singleton_self _⟩)⟩

end Workspace

end StyleServer
