import HubRules.Proofs.FileTree.Growth
import HubRules.Proofs.Text.Tokens

/-!
# Paths below a folder

A path that is joined to another one leads on from where that one leads (`namesOf_join`). Paths
whose parts are all names lead to different places below one folder if they are different
(`eq_of_locate_join`).
-/

namespace HubRules

namespace FilePath

/-- A path in which every part between slashes is the name of an entry. -/
def IsPlain (path : String) : Prop :=
  ∀ part ∈ Text.split '/' path.toList, part ≠ [] ∧ part ≠ ['.'] ∧ part ≠ ['.', '.']

theorem names_append (before behind : Text) :
    names (String.ofList (before ++ '/' :: behind))
      = names (String.ofList before) ++ names (String.ofList behind) := by
  simp only [names, String.toList_ofList, Text.split_append, List.map_append, List.filter_append]

theorem IsPlain.names_eq {path : String} (h : IsPlain path) :
    names path = (Text.split '/' path.toList).map String.ofList := by
  unfold names
  rw [List.filter_eq_self]
  intro name hname
  obtain ⟨part, hpart, rfl⟩ := List.mem_map.1 hname
  obtain ⟨hempty, hdot, -⟩ := h part hpart
  have hname : String.ofList part ≠ "." := fun heq => hdot (String.ofList_injective heq)
  simpa using ⟨hempty, hname⟩

theorem IsPlain.not_up {path : String} (h : IsPlain path) : ".." ∉ names path := by
  rw [h.names_eq]
  intro hmem
  obtain ⟨part, hpart, heq⟩ := List.mem_map.1 hmem
  exact (h part hpart).2.2 (String.ofList_injective heq)

theorem IsPlain.head?_ne {path : String} (h : IsPlain path) : path.toList.head? ≠ some '/' := by
  intro hhead
  obtain ⟨rest, hrest⟩ := List.head?_eq_some_iff.1 hhead
  have hpart : [] ∈ Text.split '/' path.toList := by
    rw [hrest]
    exact List.mem_cons_self
  exact (h [] hpart).1 rfl

theorem IsPlain.eq_of_names {path other : String} (h : IsPlain path) (hother : IsPlain other)
    (heq : names path = names other) : path = other := by
  rw [h.names_eq, hother.names_eq] at heq
  have hparts := (List.map_inj_right fun _ _ h => String.ofList_injective h).1 heq
  have htexts := congrArg (Text.join ['/']) hparts
  rw [Text.join_split, Text.join_split] at htexts
  exact String.toList_injective htexts

/-- An ending is added to a path below another one as it is added to both. -/
theorem join_append (base below : String) {ending : String}
    (h : ending.toList.head? ≠ some '/') :
    join base (below ++ ending) = join base below ++ ending := by
  have hhead : (below ++ ending).toList.head? = some '/' ↔ below.toList.head? = some '/' := by
    rw [String.toList_append]
    cases below.toList with
    | nil => simp [h]
    | cons c cs => rfl
  unfold join
  simp only [Bool.or_eq_true, decide_eq_true_eq, hhead]
  split
  · rfl
  · split <;> simp only [String.append_assoc]

theorem endsAsFolder_join (base : String) : endsAsFolder (join base "") = true := by
  have hslash : ∀ path : Text, endsAsFolder (String.ofList (path ++ ['/'])) = true := by
    intro path
    unfold endsAsFolder
    rw [String.toList_ofList, Text.split_append]
    simp [Text.split]
  unfold join
  by_cases hempty : base = ""
  · subst hempty
    rfl
  · rw [if_neg (by simp [hempty])]
    split
    · next hlast =>
      obtain ⟨before, hbefore⟩ := List.getLast?_eq_some_iff.1 hlast
      have hbase : base ++ "" = String.ofList (before ++ ['/']) := by
        rw [← hbefore, String.ofList_toList, String.append_empty]
      rw [hbase]
      exact hslash before
    · have hbase : base ++ "/" ++ "" = String.ofList (base.toList ++ ['/']) := by
        apply String.toList_injective
        simp
      rw [hbase]
      exact hslash base.toList

end FilePath

namespace FileTree

variable {tree : FileTree}

theorem namesOf_ofList_append (before behind : Text) :
    namesOf (String.ofList (before ++ '/' :: behind))
      = namesOf (String.ofList (before ++ ['/'])) ++ FilePath.names (String.ofList behind) := by
  have hhead : (before ++ '/' :: behind).head? = (before ++ ['/']).head? := by
    cases before <;> rfl
  have hends : FilePath.names (String.ofList (before ++ ['/']))
      = FilePath.names (String.ofList before) := by
    rw [FilePath.names_append]
    exact List.append_nil _
  simp only [namesOf, String.toList_ofList, hhead, FilePath.names_append, hends, List.append_assoc]

theorem namesOf_ofList_concat {path : Text} (h : path ≠ []) :
    namesOf (String.ofList (path ++ ['/'])) = namesOf (String.ofList path) := by
  have hhead : (path ++ ['/']).head? = path.head? := by
    cases path with
    | nil => exact absurd rfl h
    | cons c cs => rfl
  have hnames := FilePath.names_append path []
  rw [show FilePath.names (String.ofList []) = [] from rfl, List.append_nil] at hnames
  simp only [namesOf, String.toList_ofList, hhead, hnames]

theorem namesOf_join (base : String) {below : String} (h : below.toList.head? ≠ some '/') :
    namesOf (FilePath.join base below) = namesOf base ++ FilePath.names below := by
  unfold FilePath.join
  by_cases hempty : base = ""
  · subst hempty
    rw [if_pos (by simp)]
    unfold namesOf
    rw [if_neg h]
    rfl
  · rw [if_neg (by simp [h, hempty])]
    split
    · next hlast =>
      obtain ⟨before, hbefore⟩ := List.getLast?_eq_some_iff.1 hlast
      have hbase : base = String.ofList (before ++ ['/']) := by
        rw [← hbefore, String.ofList_toList]
      have hjoined : base ++ below = String.ofList (before ++ '/' :: below.toList) := by
        apply String.toList_injective
        simp [hbase]
      rw [hjoined, namesOf_ofList_append, ← hbase, String.ofList_toList]
    · have hjoined : base ++ "/" ++ below = String.ofList (base.toList ++ '/' :: below.toList) := by
        apply String.toList_injective
        simp
      rw [hjoined, namesOf_ofList_append, namesOf_ofList_concat (by simpa using hempty),
        String.ofList_toList, String.ofList_toList]

theorem locateFrom_append (here names more : List String) :
    tree.locateFrom here (names ++ more)
      = tree.locateFrom here names >>= fun place => tree.locateFrom place more := by
  induction names generalizing here with
  | nil => rfl
  | cons name rest ih =>
    simp only [List.cons_append, locateFrom]
    split
    · rfl
    · rfl
    · exact ih _

theorem eq_append_of_locateFrom {here names place : List String} (hup : ".." ∉ names)
    (h : tree.locateFrom here names = .ok place) : place = here ++ names := by
  induction names generalizing here with
  | nil =>
    obtain rfl : here = place := Except.ok.inj h
    rw [List.append_nil]
  | cons name rest ih =>
    obtain ⟨hname, hrest⟩ : ".." ≠ name ∧ ".." ∉ rest := by simpa using hup
    unfold locateFrom at h
    split at h
    · cases h
    · cases h
    · rw [if_neg (Ne.symm hname)] at h
      rw [ih hrest h, List.append_assoc, List.singleton_append]

theorem locateFrom_of_locate {path : String} {place : List String}
    (h : tree.locate path = .ok place) : tree.locateFrom [] (namesOf path) = .ok place := by
  unfold locate at h
  split at h
  · cases h
  · split at h
    · cases h
    · exact h

/-- Different plain paths below a folder lead to different places. -/
theorem eq_of_locate_join {base path other : String} {place : List String}
    (hpath : FilePath.IsPlain path) (hother : FilePath.IsPlain other)
    (h : tree.locate (FilePath.join base path) = .ok place)
    (h' : tree.locate (FilePath.join base other) = .ok place) : path = other := by
  have hleads : ∀ {below : String}, FilePath.IsPlain below →
      tree.locate (FilePath.join base below) = .ok place →
      ∃ folder, tree.locateFrom [] (namesOf base) = .ok folder
        ∧ place = folder ++ FilePath.names below := by
    intro below hbelow hlocate
    have hnames := locateFrom_of_locate hlocate
    rw [namesOf_join base hbelow.head?_ne, locateFrom_append] at hnames
    obtain ⟨folder, hfolder, hrest⟩ := Outcome.bind_eq_ok_iff.1 hnames
    exact ⟨folder, hfolder, eq_append_of_locateFrom hbelow.not_up hrest⟩
  obtain ⟨folder, hfolder, rfl⟩ := hleads hpath h
  obtain ⟨folder', hfolder', heq⟩ := hleads hother h'
  obtain rfl : folder = folder' := Except.ok.inj (hfolder.symm.trans hfolder')
  exact hpath.eq_of_names hother (List.append_cancel_left heq)

end FileTree

end HubRules
