import HubRules.Proofs.FileTree.Changes
import HubRules.Proofs.Project.Steps

/-!
# Writing lookup maps

Maps are written in order, each at the path of its name below the folder of maps. If these paths
lead to different places, every map can then be read at its path (`readText_of_writeMapsInto`).
-/

namespace HubRules.Project

open Outcome

variable {project : Project} {resolution : Resolution} {folder : String} {map : LookupMap}
  {maps : List LookupMap} {paths : List String} {tree after : FileTree}

/-- The path of a map below a folder. -/
def mapPath (folder : String) (map : LookupMap) : String := FilePath.join folder map.fileName

theorem on_writeMapsInto_nil : (writeMapsInto folder []).on tree = (.ok [], tree) := rfl

theorem on_writeMapsInto_cons_eq_ok_iff :
    (writeMapsInto folder (map :: maps)).on tree = (.ok paths, after) ↔
      ∃ between more, tree.write (mapPath folder map) (.text map.content) = .ok between
        ∧ (writeMapsInto folder maps).on between = (.ok more, after)
        ∧ paths = mapPath folder map :: more := by
  rw [writeMapsInto]
  simp only [Build.on_bind_eq_ok_iff, Build.on_write_eq_ok_iff, Build.on_pure, Prod.mk.injEq,
    Except.ok.injEq]
  constructor
  · rintro ⟨_, between, hwrite, more, _, hrest, rfl, rfl⟩
    exact ⟨between, more, hwrite, hrest, rfl⟩
  · rintro ⟨between, more, hwrite, hrest, rfl⟩
    exact ⟨(), between, hwrite, more, after, hrest, rfl, rfl⟩

theorem paths_of_writeMapsInto
    (h : (writeMapsInto folder maps).on tree = (.ok paths, after)) :
    paths = maps.map (mapPath folder) := by
  induction maps generalizing tree paths with
  | nil =>
    rw [on_writeMapsInto_nil] at h
    exact (Except.ok.inj (congrArg Prod.fst h)).symm
  | cons map rest ih =>
    obtain ⟨between, more, -, hrest, rfl⟩ := on_writeMapsInto_cons_eq_ok_iff.1 h
    rw [ih hrest, List.map_cons]

theorem changes_of_writeMapsInto
    (h : (writeMapsInto folder maps).on tree = (.ok paths, after)) :
    FileTree.Changes paths tree after := by
  induction maps generalizing tree paths with
  | nil =>
    rw [on_writeMapsInto_nil, Prod.mk.injEq, Except.ok.injEq] at h
    obtain ⟨rfl, rfl⟩ := h
    exact .refl tree
  | cons map rest ih =>
    obtain ⟨between, more, hwrite, hrest, rfl⟩ := on_writeMapsInto_cons_eq_ok_iff.1 h
    exact (FileTree.Changes.write hwrite).trans (ih hrest)

/-- Maps whose paths lead to different places can be read there after they were written. -/
theorem readText_of_writeMapsInto
    (h : (writeMapsInto folder maps).on tree = (.ok paths, after))
    (hplaces : paths.Pairwise after.Apart) :
    ∀ map ∈ maps, after.readText (mapPath folder map) = .ok map.content := by
  induction maps generalizing tree paths with
  | nil => simp
  | cons first rest ih =>
    obtain ⟨between, more, hwrite, hrest, rfl⟩ := on_writeMapsInto_cons_eq_ok_iff.1 h
    obtain ⟨hfirst, hmore⟩ := List.pairwise_cons.1 hplaces
    refine List.forall_mem_cons.2 ⟨?_, ih hrest hmore⟩
    exact (changes_of_writeMapsInto hrest).readText (FileTree.readText_write hwrite) hfirst

/-! ## The maps of an engine -/

/-- The tree with the folder of maps, if there are maps to write. -/
def withMapFolder (folder : String) (maps : List LookupMap) (tree : FileTree) :
    Except FileError FileTree :=
  if maps.isEmpty then .ok tree else tree.makeFolders folder

theorem changes_of_withMapFolder (h : withMapFolder folder maps tree = .ok after) :
    FileTree.Changes [] tree after := by
  unfold withMapFolder at h
  split at h
  · obtain rfl : tree = after := Except.ok.inj h
    exact .refl tree
  · exact .makeFolders h

theorem on_writeMaps_eq_ok_iff (hengine : resolution.engine.usesMapFiles = true) :
    (project.writeMaps resolution).on tree = (.ok paths, after) ↔
      ∃ maps made, resolution.base.lookupMaps = .ok maps
        ∧ withMapFolder (project.path project.settings.maps) maps tree = .ok made
        ∧ (writeMapsInto (project.path project.settings.maps) maps).on made
          = (.ok paths, after) := by
  unfold writeMaps withMapFolder
  simp only [hengine, Bool.not_true, Bool.false_eq_true, if_false, Build.on_bind_eq_ok_iff,
    Build.on_ofExcept, Prod.mk.injEq, mapError_eq_ok_iff]
  constructor
  · rintro ⟨maps, _, ⟨hmaps, rfl⟩, h⟩
    cases hempty : maps.isEmpty with
    | true =>
      rw [hempty] at h
      exact ⟨maps, tree, hmaps, if_pos hempty, h⟩
    | false =>
      rw [hempty] at h
      obtain ⟨_, made, hmade, hwrite⟩ := Build.on_bind_eq_ok_iff.1 h
      have hnot : ¬maps.isEmpty = true := Bool.eq_false_iff.1 hempty
      exact ⟨maps, made, hmaps, (if_neg hnot).trans (Build.on_changing_eq_ok_iff.1 hmade), hwrite⟩
  · rintro ⟨maps, made, hmaps, hmade, hwrite⟩
    refine ⟨maps, tree, ⟨hmaps, rfl⟩, ?_⟩
    cases hempty : maps.isEmpty with
    | true =>
      simp only [hempty, if_true] at hmade
      obtain rfl : tree = made := Except.ok.inj hmade
      exact hwrite
    | false =>
      simp only [hempty, Bool.false_eq_true, if_false] at hmade
      exact Build.on_bind_eq_ok_iff.2
        ⟨(), made, Build.on_changing_eq_ok_iff.2 hmade, hwrite⟩

theorem on_writeMaps_of_not_usesMapFiles (hengine : resolution.engine.usesMapFiles = false) :
    (project.writeMaps resolution).on tree = (.ok [], tree) := by
  unfold writeMaps
  rw [hengine]
  rfl

theorem changes_of_writeMaps
    (h : (project.writeMaps resolution).on tree = (.ok paths, after)) :
    FileTree.Changes paths tree after := by
  cases hengine : resolution.engine.usesMapFiles with
  | false =>
    rw [on_writeMaps_of_not_usesMapFiles hengine, Prod.mk.injEq, Except.ok.injEq] at h
    obtain ⟨rfl, rfl⟩ := h
    exact .refl tree
  | true =>
    obtain ⟨maps, made, -, hmade, hwrite⟩ := (on_writeMaps_eq_ok_iff hengine).1 h
    exact (changes_of_withMapFolder hmade).trans (changes_of_writeMapsInto hwrite)

end HubRules.Project
