import HubRules.Proofs.FileTree.Changes

/-!
# Replaying a run

A run of writing files and making folders can be taken on another tree than the one that it was
first taken on, as long as no file of that tree is in the way of a folder and no folder in the
place of a file (`Admits`). The second tree then keeps step with the first one: it has the folders
of the first one, and everywhere either what the first one has or what it had at the start
(`Follows`).
-/

namespace HubRules.FileTree

variable {origin last tree second after : FileTree}

/-- A tree on which a run with a given last tree can be taken. -/
structure Admits (origin last : FileTree) : Prop where
  noFolder : ∀ place content, last.at? place = some (.file content) →
    origin.at? place ≠ some .folder
  noFile : ∀ place content, origin.at? place = some (.file content) →
    last.at? place ≠ some .folder

theorem Admits.refl (tree : FileTree) : Admits tree tree := by
  constructor
  all_goals
    intro place content h
    simp [h]

theorem Grows.admits (h : Grows origin last) : Admits origin last := by
  constructor
  · intro place content hfile hfolder
    rw [h.folder place hfolder] at hfile
    cases hfile
  · intro place content hfile hfolder
    obtain ⟨new, hnew⟩ := h.file place content hfile
    rw [hfolder] at hnew
    cases hnew

/-- A tree of a second run that keeps step with a tree of the first one. -/
structure Follows (origin tree second : FileTree) : Prop where
  rooted : second.IsRooted
  folder : ∀ place, tree.at? place = some .folder → second.at? place = some .folder
  same : ∀ place, second.at? place = tree.at? place ∨ second.at? place = origin.at? place

theorem Follows.write (h : Follows origin tree second) (hadmits : Admits origin last)
    (hrooted : tree.IsRooted) (hgrows : Grows after last) {path : String} {content : Content}
    (hwrite : tree.write path content = .ok after) :
    ∃ done, second.write path content = .ok done ∧ Follows origin after done := by
  obtain ⟨place, hlocate, hplace, hfolder, hpath, rfl⟩ := (write_eq_ok_iff hrooted).1 hwrite
  -- there is no folder in the way: none of the first run, and none that was there at the start
  have hsecond : second.at? place ≠ some .folder := by
    rcases h.same place with hsame | hsame
    · rw [hsame]
      exact hplace
    · obtain ⟨new, hnew⟩ := hgrows.file place content (at?_set_self hplace _)
      rw [hsame]
      exact hadmits.noFolder place new hnew
  refine ⟨second.set place (.file content), (write_eq_ok_iff h.rooted).2
    ⟨place, locate_of_folders h.folder hlocate, hsecond, h.folder _ hfolder, hpath, rfl⟩,
    h.rooted.set hsecond (h.folder _ hfolder) _, fun key hkey => ?_, fun key => ?_⟩
  · rw [at?_set_of_not_folder hplace] at hkey
    rw [at?_set_of_not_folder hsecond]
    split at hkey
    · cases hkey
    · next hne =>
      rw [if_neg hne]
      exact h.folder key hkey
  · rw [at?_set_of_not_folder hplace, at?_set_of_not_folder hsecond]
    split
    · exact .inl rfl
    · exact h.same key

/-- Folders that the first run makes the second one makes as well, or it has them. -/
theorem Follows.makeFolders (h : Follows origin tree second) (hadmits : Admits origin last)
    (hgrows : Grows after last) {path : String} (hmake : tree.makeFolders path = .ok after) :
    ∃ done, second.makeFolders path = .ok done ∧ Follows origin after done := by
  obtain ⟨hvalid, hway, rfl⟩ := makeFolders_eq_ok_iff.1 hmake
  -- nor is there a file on the way, since the last tree of the first run has folders there
  have hsecond : ∀ place ∈ way path, ∀ content, second.at? place ≠ some (.file content) := by
    intro place hmem content hfile
    rcases h.same place with hsame | hsame
    · exact hway place hmem content (hsame.symm.trans hfile)
    · refine hadmits.noFile place content (hsame.symm.trans hfile) (hgrows.folder place ?_)
      rw [at?_withFolders hway, if_pos hmem]
  have hdone := makeFolders_eq_ok_iff.2 ⟨hvalid, hsecond, rfl⟩
  refine ⟨_, hdone, h.rooted.makeFolders hdone, fun key hkey => ?_, fun key => ?_⟩
  · rw [at?_withFolders hway] at hkey
    rw [at?_withFolders hsecond]
    split at hkey
    · next hmem => rw [if_pos hmem]
    · next hmem =>
      rw [if_neg hmem]
      exact h.folder key hkey
  · rw [at?_withFolders hway, at?_withFolders hsecond]
    split
    · exact .inl rfl
    · exact h.same key

/-- A path of which no stop is touched by the first run shows the same at every stage of both. -/
theorem Follows.shown? {before : FileTree} {paths : List String} {path : String}
    (h : Follows origin tree second) (hrooted : before.IsRooted)
    (hstage : Stage paths before last tree) (horigin : Stage paths before last origin)
    (hstops : ∀ stop ∈ stops path, ¬Touched paths before last stop) :
    second.shown? path = before.shown? path := by
  refine shown?_of_stops hrooted ⟨fun place hplace => ?_, fun place content hplace => ?_⟩
    fun stop hstop => ?_
  · exact h.folder place (hstage.grown.folder place hplace)
  · rcases h.same place with hsame | hsame
    · rw [hsame]
      exact hstage.grown.file place content hplace
    · rw [hsame]
      exact horigin.grown.file place content hplace
  · rcases h.same stop with hsame | hsame
    · rw [hsame]
      exact (hstage.touched stop).resolve_right (hstops stop hstop)
    · rw [hsame]
      exact (horigin.touched stop).resolve_right (hstops stop hstop)

end HubRules.FileTree
