import HubRules.Proofs.FileTree.Views

/-!
# Changes of a tree

What a run of writing files and making folders may have changed: the places where the paths that
it wrote lead, and those where there is a folder now and was nothing before (`Touched`). Changes
follow each other (`Changes.trans`). A file keeps its text if no path that is written later leads
to its place (`Changes.readText`), and a path shows the same at every stage of a run that touches
none of its stops (`Stage.shown?`).
-/

namespace HubRules.FileTree

/-- Two paths that do not lead to the same place. -/
def Apart (tree : FileTree) (path other : String) : Prop :=
  ∀ place, tree.locate path = .ok place → tree.locate other ≠ .ok place

instance (tree : FileTree) (path other : String) : Decidable (Apart tree path other) :=
  decidable_of_iff ((tree.locate path).toOption = none
      ∨ (tree.locate other).toOption ≠ (tree.locate path).toOption) <| by
    unfold Apart
    cases tree.locate path <;> cases tree.locate other <;> simp [Except.toOption]

/-- The places that a run may have changed. -/
def Touched (paths : List String) (before after : FileTree) (place : List String) : Prop :=
  (∃ path ∈ paths, after.locate path = .ok place)
    ∨ (after.at? place = some .folder ∧ before.at? place = none)

instance (paths : List String) (before after : FileTree) (place : List String) :
    Decidable (Touched paths before after place) :=
  decidable_of_iff ((∃ path ∈ paths, (after.locate path).toOption = some place)
      ∨ (after.at? place = some .folder ∧ before.at? place = none)) <| by
    have hleads : ∀ path, (after.locate path).toOption = some place
        ↔ after.locate path = .ok place := by
      intro path
      cases after.locate path <;> simp [Except.toOption]
    simp only [hleads, Touched]

/-- A tree after a run that wrote some paths. -/
structure Changes (paths : List String) (before after : FileTree) : Prop where
  grows : Grows before after
  rooted : before.IsRooted → after.IsRooted
  touched : ∀ place, after.at? place = before.at? place ∨ Touched paths before after place

variable {before between after tree : FileTree} {paths more : List String} {path text : String}

theorem Changes.refl (tree : FileTree) : Changes [] tree tree :=
  ⟨.refl tree, id, fun _ => .inl rfl⟩

theorem Grows.eq_none (h : Grows before after) {place : List String}
    (hplace : after.at? place = none) : before.at? place = none := by
  cases hbefore : before.at? place with
  | none => rfl
  | some entry =>
    cases entry with
    | folder =>
      rw [h.folder place hbefore] at hplace
      cases hplace
    | file content =>
      obtain ⟨new, hnew⟩ := h.file place content hbefore
      rw [hnew] at hplace
      cases hplace

theorem Touched.left (hsecond : Grows between after) {place : List String}
    (h : Touched paths before between place) : Touched (paths ++ more) before after place := by
  rcases h with ⟨path, hpath, hlocate⟩ | ⟨hfolder, hnone⟩
  · exact .inl ⟨path, List.mem_append_left more hpath, hsecond.locate hlocate⟩
  · exact .inr ⟨hsecond.folder place hfolder, hnone⟩

theorem Touched.right (hfirst : Grows before between) {place : List String}
    (h : Touched more between after place) : Touched (paths ++ more) before after place := by
  rcases h with ⟨path, hpath, hlocate⟩ | ⟨hfolder, hnone⟩
  · exact .inl ⟨path, List.mem_append_right paths hpath, hlocate⟩
  · exact .inr ⟨hfolder, hfirst.eq_none hnone⟩

theorem Changes.trans (first : Changes paths before between) (second : Changes more between after) :
    Changes (paths ++ more) before after := by
  refine ⟨first.grows.trans second.grows, fun h => second.rooted (first.rooted h),
    fun place => ?_⟩
  rcases second.touched place with hsame | htouched
  · rw [hsame]
    exact (first.touched place).imp_right fun h => h.left second.grows
  · exact .inr (htouched.right first.grows)

theorem Changes.write {content : Content} (h : tree.write path content = .ok after) :
    Changes [path] tree after := by
  refine ⟨.write h, fun hrooted => hrooted.write h, fun key => ?_⟩
  obtain ⟨place, hlocate, hplace, -, rfl⟩ := write_eq_ok h
  rw [at?_set_of_not_folder hplace]
  by_cases hkey : key = place
  · subst hkey
    exact .inr (.inl ⟨path, List.mem_singleton_self path,
      (Grows.set_file hplace content).locate hlocate⟩)
  · exact .inl (if_neg hkey)

theorem Changes.makeFolders (h : tree.makeFolders path = .ok after) : Changes [] tree after := by
  refine ⟨.makeFolders h, fun hrooted => hrooted.makeFolders h, fun place => ?_⟩
  obtain ⟨-, hway, rfl⟩ := makeFolders_eq_ok_iff.1 h
  unfold Touched
  rw [at?_withFolders hway]
  split
  · next hmem =>
    cases hplace : tree.at? place with
    | none => exact .inr (.inr ⟨rfl, rfl⟩)
    | some entry =>
      cases entry with
      | folder => exact .inl rfl
      | file content => exact absurd hplace (hway place hmem content)
  · exact .inl rfl

/-- A file keeps its text if no path that was written leads to its place. -/
theorem Changes.readText (h : Changes paths before after)
    (hread : before.readText path = .ok text)
    (hother : ∀ other ∈ paths, after.Apart path other) :
    after.readText path = .ok text := by
  obtain ⟨hentry, hending⟩ := readText_eq_ok_iff.1 hread
  refine readText_eq_ok_iff.2 ⟨?_, hending⟩
  unfold shown? at hentry ⊢
  cases hlocate : before.locate path with
  | error cause =>
    rw [hlocate] at hentry
    cases hentry
  | ok place =>
    have hafter := h.grows.locate hlocate
    simp only [hlocate] at hentry
    simp only [hafter]
    rcases h.touched place with hsame | ⟨other, hmem, hleads⟩ | ⟨-, hnone⟩
    · rw [hsame, hentry]
    · exact absurd hleads (hother other hmem place hafter)
    · -- a new folder takes the place of no file
      rw [hnone] at hentry
      cases hentry

/-- Paths that lead to different places after a run do so before. -/
theorem Apart.of_folders {other : String} (h : after.Apart path other)
    (hfolders : ∀ place, tree.at? place = some .folder → after.at? place = some .folder) :
    tree.Apart path other :=
  fun place hpath hother => h place (locate_of_folders hfolders hpath)
    (locate_of_folders hfolders hother)

/-! ## Stages of a run -/

/-- A tree between the first and the last one of a run. -/
structure Stage (paths : List String) (before last tree : FileTree) : Prop where
  rooted : tree.IsRooted
  grown : Grows before tree
  grows : Grows tree last
  touched : ∀ place, tree.at? place = before.at? place ∨ Touched paths before last place

variable {last later : FileTree} {written : List String}

theorem Stage.start (hrooted : before.IsRooted) (h : Changes paths before last) :
    Stage paths before last before :=
  ⟨hrooted, .refl before, h.grows, fun _ => .inl rfl⟩

theorem Stage.next (h : Stage paths before last tree) (hchanges : Changes written tree later)
    (hgrows : Grows later last) (hwritten : ∀ path ∈ written, path ∈ paths) :
    Stage paths before last later := by
  refine ⟨hchanges.rooted h.rooted, h.grown.trans hchanges.grows, hgrows, fun place => ?_⟩
  rcases hchanges.touched place with hsame | ⟨path, hpath, hlocate⟩ | ⟨hfolder, hnone⟩
  · rw [hsame]
    exact h.touched place
  · exact .inr (.inl ⟨path, hwritten path hpath, hgrows.locate hlocate⟩)
  · exact .inr (.inr ⟨hgrows.folder place hfolder, h.grown.eq_none hnone⟩)

/-- A path of which no stop is touched by a run shows the same at every stage of the run. -/
theorem Stage.shown? (hrooted : before.IsRooted) (h : Stage paths before last tree)
    (hstops : ∀ stop ∈ stops path, ¬Touched paths before last stop) :
    tree.shown? path = before.shown? path :=
  shown?_of_stops hrooted h.grown fun stop hstop =>
    (h.touched stop).resolve_right (hstops stop hstop)

end HubRules.FileTree
