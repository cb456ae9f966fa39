import HubRules.FileTree.Basic
import HubRules.Proofs.Outcome

/-!
# Growing trees

Writing a file and making folders set entries and take none away (`Grows`), so that a path
which led somewhere leads there still (`Grows.locate`). In a tree whose entries all lie in
folders (`IsRooted`) it depends on the folders only whether a file can be written
(`write_eq_ok_iff`), and making folders sets those on the way down that are missing
(`makeFolders_eq_ok_iff`).
-/

namespace HubRules.FileTree

open Outcome

/-- Every entry lies in a folder. -/
def IsRooted (tree : FileTree) : Prop :=
  ∀ place, (tree.at? place).isSome → tree.at? place.dropLast = some .folder

/-- Where there was a folder or a file, there is still one. -/
structure Grows (before after : FileTree) : Prop where
  folder : ∀ place, before.at? place = some .folder → after.at? place = some .folder
  file : ∀ place content, before.at? place = some (.file content) →
    ∃ new, after.at? place = some (.file new)

variable {tree before after last : FileTree} {place : List String}

theorem Grows.refl (tree : FileTree) : Grows tree tree :=
  ⟨fun _ h => h, fun _ content h => ⟨content, h⟩⟩

theorem Grows.trans (first : Grows before after) (second : Grows after last) :
    Grows before last := by
  refine ⟨fun place h => second.folder place (first.folder place h), fun place content h => ?_⟩
  obtain ⟨new, hnew⟩ := first.file place content h
  exact second.file place new hnew

/-! ## Setting an entry -/

/-- Setting an entry where there is no folder changes nothing else. -/
theorem at?_set_of_not_folder (h : tree.at? place ≠ some .folder) (key : List String)
    (entry : Entry) :
    (tree.set place entry).at? key = if key = place then some entry else tree.at? key := by
  rw [at?_set]
  by_cases hkey : isAnchor key
  · have hne : key ≠ place := by
      rintro rfl
      exact h (if_pos hkey)
    rw [if_pos hkey, if_neg hne, at?, if_pos hkey]
  · rw [if_neg hkey]

theorem at?_set_self (h : tree.at? place ≠ some .folder) (entry : Entry) :
    (tree.set place entry).at? place = some entry := by
  rw [at?_set_of_not_folder h, if_pos rfl]

theorem Grows.set_file (h : tree.at? place ≠ some .folder) (content : Content) :
    Grows tree (tree.set place (.file content)) := by
  constructor
  · intro key hkey
    have hne : key ≠ place := by
      rintro rfl
      exact h hkey
    rw [at?_set_of_not_folder h, if_neg hne, hkey]
  · intro key old hkey
    rw [at?_set_of_not_folder h]
    split
    · exact ⟨content, rfl⟩
    · exact ⟨old, hkey⟩

/-- An entry may be set in a folder where there is none. -/
theorem IsRooted.set (hrooted : tree.IsRooted) (h : tree.at? place ≠ some .folder)
    (hfolder : tree.at? place.dropLast = some .folder) (entry : Entry) :
    (tree.set place entry).IsRooted := by
  have hkept : ∀ key, tree.at? key = some .folder → (tree.set place entry).at? key
      = some .folder := by
    intro key hkey
    have hne : key ≠ place := by
      rintro rfl
      exact h hkey
    rw [at?_set_of_not_folder h, if_neg hne, hkey]
  intro key hkey
  by_cases hne : key = place
  · rw [hne]
    exact hkept _ hfolder
  · rw [at?_set_of_not_folder h, if_neg hne] at hkey
    exact hkept _ (hrooted key hkey)

/-- In a tree that is given by its entries it is enough that these lie in folders. -/
theorem IsRooted.of_entries
    (h : ∀ entry ∈ tree.entries, tree.at? entry.1.dropLast = some .folder) : tree.IsRooted := by
  intro place hplace
  unfold at? at hplace
  split at hplace
  · next hanchor =>
    -- a place that is a folder in every tree lies in another one
    have hup : isAnchor place.dropLast = true := by
      simp only [isAnchor, Bool.or_eq_true, decide_eq_true_eq, List.all_eq_true] at hanchor ⊢
      rcases hanchor with rfl | hall
      · exact .inr (by simp)
      · exact .inr fun name hname => hall name (List.dropLast_subset place hname)
    rw [at?, if_pos hup]
  · obtain ⟨entry, hentry⟩ := Option.isSome_iff_exists.1 hplace
    obtain ⟨before, behind, hsplit, -⟩ := List.lookup_eq_some_iff.1 hentry
    refine h (place, entry) ?_
    rw [hsplit]
    exact List.mem_append_right before List.mem_cons_self

/-! ## Where paths lead -/

theorem locateFrom_of_folders {other : FileTree}
    (h : ∀ place, tree.at? place = some .folder → other.at? place = some .folder)
    {here names place : List String} (hlocate : tree.locateFrom here names = .ok place) :
    other.locateFrom here names = .ok place := by
  -- every place that the names pass is a folder of the first tree, and so of the other one
  induction names generalizing here with
  | nil => exact hlocate
  | cons name rest ih =>
    unfold FileTree.locateFrom at hlocate ⊢
    cases hhere : tree.at? here with
    | none =>
      rw [hhere] at hlocate
      cases hlocate
    | some entry =>
      rw [hhere] at hlocate
      cases entry with
      | file content => cases hlocate
      | folder =>
        rw [h here hhere]
        exact ih hlocate

/-- A path leads to the same place in a tree that has all folders of another one. -/
theorem locate_of_folders {other : FileTree}
    (h : ∀ place, tree.at? place = some .folder → other.at? place = some .folder)
    {path : String} {place : List String} (hlocate : tree.locate path = .ok place) :
    other.locate path = .ok place := by
  unfold FileTree.locate at hlocate ⊢
  split at hlocate
  · cases hlocate
  · split at hlocate
    · cases hlocate
    · next hempty hvalid =>
      rw [if_neg hempty, if_neg hvalid]
      exact locateFrom_of_folders h hlocate

theorem Grows.locate (h : Grows before after) {path : String} {place : List String}
    (hlocate : before.locate path = .ok place) : after.locate path = .ok place :=
  locate_of_folders h.folder hlocate

theorem IsRooted.at?_above (hrooted : tree.IsRooted) {here : List String}
    (h : tree.at? here = some .folder) : tree.at? (above here) = some .folder := by
  unfold above
  split
  · exact h
  · split
    · next hroot hanchor =>
      have hup : isAnchor (here ++ [".."]) = true := by
        simp only [isAnchor, Bool.or_eq_true, decide_eq_true_eq, List.all_eq_true] at hanchor ⊢
        refine .inr fun name hname => ?_
        rcases List.mem_append.1 hname with hname | hname
        · exact hanchor.resolve_left hroot name hname
        · exact List.mem_singleton.1 hname
      rw [at?, if_pos hup]
    · exact hrooted here (by rw [h]; rfl)

/-! ## Writing a file -/

theorem write_of_locate {path : String} (h : tree.locate path = .ok place) (content : Content) :
    tree.write path content =
      if (tree.at? place.dropLast).isNone then .error .notFound
      else match tree.at? place with
      | some .folder => .error .isFolder
      | some (.file _) =>
        if FilePath.endsAsFolder path then .error .notFolder
        else .ok (tree.set place (.file content))
      | none =>
        if FilePath.endsAsFolder path then .error .isFolder
        else if tree.at? place.dropLast = some .folder then .ok (tree.set place (.file content))
        else .error .notFolder := by
  unfold write
  cases habove : tree.at? place.dropLast with
  | none => simp [h, habove, bind, Except.bind, throw, throwThe, MonadExceptOf.throw]
  | some above =>
    rcases hplace : tree.at? place with _ | _ | _
    all_goals
      simp [h, habove, hplace, bind, Except.bind, throw, throwThe, MonadExceptOf.throw, pure,
        Except.pure]

/-- A file that was written is where the path leads, and in the place of no folder. -/
theorem write_eq_ok {path : String} {content : Content}
    (h : tree.write path content = .ok after) :
    ∃ place, tree.locate path = .ok place ∧ tree.at? place ≠ some .folder
      ∧ FilePath.endsAsFolder path = false ∧ after = tree.set place (.file content) := by
  cases hlocate : tree.locate path with
  | error cause =>
    unfold write at h
    rw [hlocate] at h
    cases h
  | ok place =>
    rw [write_of_locate hlocate] at h
    refine ⟨place, rfl, ?_⟩
    split at h
    · cases h
    · split at h
      · cases h
      · next hplace =>
        rw [hplace]
        split at h
        · cases h
        · next hpath => exact ⟨by simp, by simpa using hpath, (Except.ok.inj h).symm⟩
      · next hplace =>
        rw [hplace]
        split at h
        · cases h
        · next hpath =>
          split at h
          · exact ⟨by simp, by simpa using hpath, (Except.ok.inj h).symm⟩
          · cases h

/-- In a tree whose entries lie in folders a file can be written exactly if its path leads into
a folder and is that of no folder itself. -/
theorem write_eq_ok_iff (hrooted : tree.IsRooted) {path : String} {content : Content} :
    tree.write path content = .ok after ↔
      ∃ place, tree.locate path = .ok place ∧ tree.at? place ≠ some .folder
        ∧ tree.at? place.dropLast = some .folder ∧ FilePath.endsAsFolder path = false
        ∧ after = tree.set place (.file content) := by
  constructor
  · intro h
    obtain ⟨place, hlocate, hplace, hpath, rfl⟩ := write_eq_ok h
    refine ⟨place, hlocate, hplace, ?_, hpath, rfl⟩
    rw [write_of_locate hlocate, hpath] at h
    cases hfound : tree.at? place with
    | some entry => exact hrooted place (by rw [hfound]; rfl)
    | none =>
      -- for a new file the system itself asks for the folder
      by_cases hfolder : tree.at? place.dropLast = some .folder
      · exact hfolder
      · simp only [hfound, hfolder, Bool.false_eq_true, if_false] at h
        split at h <;> cases h
  · rintro ⟨place, hlocate, hplace, hfolder, hpath, rfl⟩
    rw [write_of_locate hlocate, hfolder, hpath]
    cases hfound : tree.at? place with
    | none => simp
    | some entry =>
      cases entry with
      | folder => exact absurd hfound hplace
      | file old => simp

theorem Grows.write {path : String} {content : Content}
    (h : tree.write path content = .ok after) : Grows tree after := by
  obtain ⟨place, -, hplace, -, rfl⟩ := write_eq_ok h
  exact .set_file hplace content

theorem IsRooted.write (hrooted : tree.IsRooted) {path : String} {content : Content}
    (h : tree.write path content = .ok after) : after.IsRooted := by
  obtain ⟨place, -, hplace, hfolder, -, rfl⟩ := (write_eq_ok_iff hrooted).1 h
  exact hrooted.set hplace hfolder _

/-- Writing a file makes no folder. -/
theorem folder_of_write {path : String} {content : Content}
    (h : tree.write path content = .ok after)
    (hplace : after.at? place = some .folder) : tree.at? place = some .folder := by
  obtain ⟨written, -, hwritten, -, rfl⟩ := write_eq_ok h
  rw [at?_set_of_not_folder hwritten] at hplace
  split at hplace
  · cases hplace
  · exact hplace

theorem readText_write {path content : String}
    (h : tree.write path (.text content) = .ok after) : after.readText path = .ok content := by
  obtain ⟨place, hlocate, hplace, hpath, rfl⟩ := write_eq_ok h
  have hafter := (Grows.set_file hplace (.text content)).locate hlocate
  unfold readText read
  rw [hafter]
  simp only [bind, Except.bind, at?_set_self hplace, hpath, Bool.false_eq_true, if_false, pure,
    Except.pure]

/-! ## Making folders -/

/-- The places through which names lead down from a place. -/
def wayFrom : List String → List String → List (List String)
  | _, [] => []
  | here, name :: rest =>
    if name = ".." then wayFrom (above here) rest
    else (here ++ [name]) :: wayFrom (here ++ [name]) rest

def way (path : String) : List (List String) := wayFrom [] (namesOf path)

/-- The tree with a folder at every one of some places, where there is nothing yet. -/
def withFolders (tree : FileTree) : List (List String) → FileTree
  | [] => tree
  | place :: places =>
    (if tree.at? place = none then tree.set place .folder else tree).withFolders places

theorem at?_withFolders {places : List (List String)}
    (h : ∀ place ∈ places, ∀ content, tree.at? place ≠ some (.file content))
    (key : List String) :
    (tree.withFolders places).at? key = if key ∈ places then some .folder else tree.at? key := by
  induction places generalizing tree with
  | nil => rfl
  | cons place rest ih =>
    unfold withFolders
    by_cases hplace : tree.at? place = none
    · have hnot : tree.at? place ≠ some .folder := by simp [hplace]
      rw [if_pos hplace, ih]
      · rw [at?_set_of_not_folder hnot]
        grind
      · intro other hother content
        rw [at?_set_of_not_folder hnot]
        have := h other (List.mem_cons_of_mem _ hother) content
        grind
    · have hfolder : tree.at? place = some .folder := by
        cases hfound : tree.at? place with
        | none => exact absurd hfound hplace
        | some entry =>
          cases entry with
          | folder => rfl
          | file content => exact absurd hfound (h place List.mem_cons_self content)
      rw [if_neg hplace, ih fun other hother => h other (List.mem_cons_of_mem _ hother)]
      grind

/-- Folders can be made where no file is in the way. -/
theorem makeFoldersFrom_eq_ok_iff {here names : List String} :
    tree.makeFoldersFrom here names = .ok after ↔
      (∀ place ∈ wayFrom here names, ∀ content, tree.at? place ≠ some (.file content))
        ∧ after = tree.withFolders (wayFrom here names) := by
  induction names generalizing tree here with
  | nil => simp [makeFoldersFrom, wayFrom, withFolders, eq_comm]
  | cons name rest ih =>
    unfold makeFoldersFrom wayFrom
    split
    · exact ih
    · cases hplace : tree.at? (here ++ [name]) with
      | none =>
        have hnot : tree.at? (here ++ [name]) ≠ some .folder := by simp [hplace]
        -- the new folder is in nobody's way
        have hsame : ∀ place content, (tree.set (here ++ [name]) .folder).at? place
            = some (.file content) ↔ tree.at? place = some (.file content) := by
          intro place content
          rw [at?_set_of_not_folder hnot]
          split
          · next heq => simp [heq, hplace]
          · rfl
        simp only [ih, ne_eq, hsame, withFolders, hplace, List.forall_mem_cons, reduceCtorEq,
          not_false_eq_true, implies_true, true_and, if_true]
      | some entry =>
        cases entry with
        | folder =>
          simp only [ih, withFolders, hplace, ne_eq, List.forall_mem_cons, Option.some.injEq,
            reduceCtorEq, not_false_eq_true, implies_true, true_and, if_false]
        | file content => simp [hplace]

theorem makeFolders_eq_ok_iff {path : String} :
    tree.makeFolders path = .ok after ↔
      FilePath.isInvalid path = false
        ∧ (∀ place ∈ way path, ∀ content, tree.at? place ≠ some (.file content))
        ∧ after = tree.withFolders (way path) := by
  unfold makeFolders
  cases FilePath.isInvalid path with
  | true => simp
  | false =>
    rw [if_neg Bool.false_ne_true, makeFoldersFrom_eq_ok_iff]
    exact (and_iff_right rfl).symm

theorem Grows.withFolders {places : List (List String)}
    (h : ∀ place ∈ places, ∀ content, tree.at? place ≠ some (.file content)) :
    Grows tree (tree.withFolders places) := by
  constructor
  · intro key hkey
    rw [at?_withFolders h, hkey, ite_self]
  · intro key content hkey
    have hnot : key ∉ places := fun hmem => h key hmem content hkey
    exact ⟨content, by rw [at?_withFolders h, if_neg hnot, hkey]⟩

theorem Grows.makeFolders {path : String} (h : tree.makeFolders path = .ok after) :
    Grows tree after := by
  obtain ⟨-, hway, rfl⟩ := makeFolders_eq_ok_iff.1 h
  exact .withFolders hway

theorem IsRooted.makeFoldersFrom (hrooted : tree.IsRooted) {here names : List String}
    (hhere : tree.at? here = some .folder) (h : tree.makeFoldersFrom here names = .ok after) :
    after.IsRooted := by
  -- the names are followed from a folder all the way: up from it, into it, or into a new one
  induction names generalizing tree here with
  | nil =>
    obtain rfl : tree = after := Except.ok.inj h
    exact hrooted
  | cons name rest ih =>
    unfold FileTree.makeFoldersFrom at h
    split at h
    · exact ih hrooted (hrooted.at?_above hhere) h
    · split at h
      · next hplace => exact ih hrooted hplace h
      · cases h
      · next hplace =>
        have hnot : tree.at? (here ++ [name]) ≠ some .folder := by simp [hplace]
        refine ih (hrooted.set hnot ?_ .folder) (at?_set_self hnot .folder) h
        rwa [List.dropLast_concat]

theorem IsRooted.makeFolders (hrooted : tree.IsRooted) {path : String}
    (h : tree.makeFolders path = .ok after) : after.IsRooted := by
  unfold FileTree.makeFolders at h
  split at h
  · cases h
  · exact hrooted.makeFoldersFrom (by rfl) h

end HubRules.FileTree
