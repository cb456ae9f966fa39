import HubRules.Proofs.Project.Steps

/-!
# Compiling artifacts

Artifacts are compiled in order up to the first that fails. What such a run leaves is what
compiling the artifacts before that one leaves, but for the folder of the artifact, and what
stands behind it in the list makes no difference (`compileAll_stops_at_one`).
-/

namespace HubRules

open Outcome

namespace FileTree

def makeParent (tree : FileTree) (path : String) : Except FileError FileTree :=
  match FilePath.parent? path with
  | some folder => tree.makeFolders folder
  | none => .ok tree

theorem at?_eq_file_iff_of_makeFolders {tree after : FileTree} {path : String}
    (h : tree.makeFolders path = .ok after) (place : List String) (content : Content) :
    after.at? place = some (.file content) ↔ tree.at? place = some (.file content) := by
  obtain ⟨-, hway, rfl⟩ := makeFolders_eq_ok_iff.1 h
  rw [at?_withFolders hway]
  split
  · next hmem => simp [hway place hmem content]
  · rfl

end FileTree

namespace Project

variable {project : Project} {context : RenderContext} {artifact : String}
  {tree after : FileTree}

/-- The text of an artifact, rendered from the template that a tree holds. -/
def rendering (project : Project) (context : RenderContext) (artifact : String)
    (tree : FileTree) : Except BuildError String := do
  let text ← readSource (project.path (templateSource artifact)) tree
  let rendered ← (context.render project.settings.strict text).mapError .template
  return String.ofList rendered

theorem on_render :
    (project.render context artifact).on tree =
      ((Activity.rendering (templateSource artifact)).run id
        (project.rendering context artifact tree), tree) := rfl

/-- Makes the folder that holds a path, if it has one. -/
def makingParent (path : String) : Build Unit :=
  match FilePath.parent? path with
  | some folder => Build.changing (.makingFolder folder) (·.makeFolders folder)
  | none => pure ()

theorem on_makingParent_eq_ok_iff {path : String} {done : Unit} :
    (makingParent path).on tree = (.ok done, after) ↔ tree.makeParent path = .ok after := by
  unfold makingParent FileTree.makeParent
  cases FilePath.parent? path with
  | some folder => exact Build.on_changing_eq_ok_iff
  | none => simp

theorem compile_eq :
    project.compile context artifact = (do
      let rendered ← project.render context artifact
      makingParent (project.path artifact)
      Build.write (.writing (project.path artifact)) (project.path artifact) rendered
      return project.path artifact) := by
  unfold compile makingParent
  refine congrArg (bind _) (funext fun rendered => ?_)
  dsimp only
  cases FilePath.parent? (project.path artifact) <;> rfl

/-- An artifact is compiled if its template is rendered, its folder is there or made, and the
text is written. -/
theorem on_compile_eq_ok_iff {path : String} :
    (project.compile context artifact).on tree = (.ok path, after) ↔
      path = project.path artifact ∧ ∃ rendered made,
        project.rendering context artifact tree = .ok rendered
          ∧ tree.makeParent (project.path artifact) = .ok made
          ∧ made.write (project.path artifact) (.text rendered) = .ok after := by
  rw [compile_eq]
  simp only [Build.on_bind_eq_ok_iff, on_render, on_makingParent_eq_ok_iff,
    Build.on_write_eq_ok_iff, Build.on_pure, Prod.mk.injEq, Except.ok.injEq, Activity.run,
    mapError_eq_ok_iff]
  constructor
  · rintro ⟨rendered, _, ⟨hrendered, rfl⟩, -, made, hmade, -, _, hwrite, rfl, rfl⟩
    exact ⟨rfl, rendered, made, hrendered, hmade, hwrite⟩
  · rintro ⟨rfl, rendered, made, hrendered, hmade, hwrite⟩
    exact ⟨rendered, tree, ⟨hrendered, rfl⟩, (), made, hmade, (), after, hwrite, rfl, rfl⟩

/-- The errors of compiling an artifact, with what is left then. -/
inductive CompileError (project : Project) (artifact : String) (tree : FileTree) :
    BuildError → FileTree → Prop where
  | rendering (cause : BuildError) :
    CompileError project artifact tree (.during (.rendering (templateSource artifact)) cause) tree
  | folder {folder : String} (h : FilePath.parent? (project.path artifact) = some folder)
      (cause : FileError) :
    CompileError project artifact tree (.during (.makingFolder folder) (.file cause)) tree
  | file {made : FileTree} (h : tree.makeParent (project.path artifact) = .ok made)
      (cause : FileError) :
    CompileError project artifact tree
      (.during (.writing (project.path artifact)) (.file cause)) made

theorem compileError_of_on_compile {cause : BuildError}
    (h : (project.compile context artifact).on tree = (.error cause, after)) :
    CompileError project artifact tree cause after := by
  rw [compile_eq] at h
  rcases Build.on_bind_eq_error_iff.1 h with h | ⟨rendered, between, hrender, h⟩
  · rw [on_render] at h
    cases hrendering : project.rendering context artifact tree with
    | ok rendered => simp [hrendering, Activity.run, mapError_ok] at h
    | error inner =>
      simp only [hrendering, Activity.run, mapError_error, Prod.mk.injEq, Except.error.injEq] at h
      obtain ⟨rfl, rfl⟩ := h
      exact .rendering inner
  · obtain rfl : tree = between := by
      rw [on_render] at hrender
      exact congrArg Prod.snd hrender
    rcases Build.on_bind_eq_error_iff.1 h with h | ⟨_, made, hmade, h⟩
    · unfold makingParent at h
      split at h
      · next folder hfolder =>
        obtain ⟨reason, -, rfl, rfl⟩ := Build.on_changing_eq_error_iff.1 h
        exact .folder hfolder reason
      · simp at h
    · have hmade := on_makingParent_eq_ok_iff.1 hmade
      rcases Build.on_bind_eq_error_iff.1 h with h | ⟨_, _, -, h⟩
      · obtain ⟨reason, -, rfl, rfl⟩ := Build.on_changing_eq_error_iff.1 h
        exact .file hmade reason
      · simp at h

/-- What is left when an artifact fails: the tree as it was, or with its folder. -/
theorem CompileError.left {cause : BuildError}
    (h : CompileError project artifact tree cause after) :
    after = tree ∨ ∃ folder, FilePath.parent? (project.path artifact) = some folder
      ∧ tree.makeFolders folder = .ok after := by
  cases h with
  | rendering => exact .inl rfl
  | folder => exact .inl rfl
  | file hmade =>
    unfold FileTree.makeParent at hmade
    split at hmade
    · next folder hfolder => exact .inr ⟨folder, hfolder, hmade⟩
    · exact .inl (Except.ok.inj hmade).symm

/-- A message that names an artifact: by the template that could not be rendered, or by the
folder or the file that could not be written. -/
def NamesArtifact (project : Project) (artifact message : String) : Prop :=
  ∃ reason, message = "Could not render " ++ (artifact ++ ".mustache") ++ ": " ++ reason
    ∨ (∃ folder, FilePath.parent? (project.path artifact) = some folder
        ∧ message = "Failed to create directory: " ++ folder ++ ": " ++ reason)
    ∨ message = "Failed to write " ++ project.path artifact ++ ": " ++ reason

theorem CompileError.namesArtifact {cause : BuildError}
    (h : CompileError project artifact tree cause after) :
    project.NamesArtifact artifact cause.message := by
  cases h with
  | rendering inner => exact ⟨inner.message, .inl rfl⟩
  | folder hfolder inner => exact ⟨inner.message, .inr (.inl ⟨_, hfolder, rfl⟩)⟩
  | file hmade inner => exact ⟨inner.message, .inr (.inr rfl)⟩

/-! ## Lists of artifacts -/

theorem on_compileAll_nil : (project.compileAll context []).on tree = (.ok [], tree) := rfl

theorem on_compileAll_cons_eq_ok_iff {artifacts paths : List String} :
    (project.compileAll context (artifact :: artifacts)).on tree = (.ok paths, after) ↔
      ∃ between more,
        (project.compile context artifact).on tree = (.ok (project.path artifact), between)
          ∧ (project.compileAll context artifacts).on between = (.ok more, after)
          ∧ paths = project.path artifact :: more := by
  rw [compileAll, Build.on_bind_eq_ok_iff]
  simp only [Build.on_bind_eq_ok_iff, Build.on_pure, Prod.mk.injEq, Except.ok.injEq]
  constructor
  · rintro ⟨path, between, hfirst, more, _, hrest, rfl, rfl⟩
    obtain rfl := (on_compile_eq_ok_iff.1 hfirst).1
    exact ⟨between, more, hfirst, hrest, rfl⟩
  · rintro ⟨between, more, hfirst, hrest, rfl⟩
    exact ⟨_, between, hfirst, more, after, hrest, rfl, rfl⟩

theorem on_compileAll_cons_eq_error_iff {artifacts : List String} {cause : BuildError} :
    (project.compileAll context (artifact :: artifacts)).on tree = (.error cause, after) ↔
      (project.compile context artifact).on tree = (.error cause, after)
        ∨ ∃ between,
          (project.compile context artifact).on tree = (.ok (project.path artifact), between)
            ∧ (project.compileAll context artifacts).on between = (.error cause, after) := by
  rw [compileAll, Build.on_bind_eq_error_iff]
  simp only [Build.on_bind_eq_error_iff, Build.on_pure, Prod.mk.injEq, reduceCtorEq, false_and,
    and_false, exists_false, or_false]
  refine or_congr_right ⟨?_, ?_⟩
  · rintro ⟨path, between, hfirst, hrest⟩
    obtain rfl := (on_compile_eq_ok_iff.1 hfirst).1
    exact ⟨between, hfirst, hrest⟩
  · rintro ⟨between, hfirst, hrest⟩
    exact ⟨_, between, hfirst, hrest⟩

theorem paths_of_compileAll {artifacts paths : List String}
    (h : (project.compileAll context artifacts).on tree = (.ok paths, after)) :
    paths = artifacts.map project.path := by
  induction artifacts generalizing tree paths with
  | nil =>
    rw [on_compileAll_nil] at h
    exact (Except.ok.inj (congrArg Prod.fst h)).symm
  | cons artifact rest ih =>
    obtain ⟨between, more, -, hrest, rfl⟩ := on_compileAll_cons_eq_ok_iff.1 h
    rw [ih hrest, List.map_cons]

/-- Where compiling a list of artifacts stops: at an artifact in it, whose error names it, on
the tree that compiling the artifacts before it made. -/
structure StopsAt (project : Project) (context : RenderContext) (tree : FileTree)
    (artifacts : List String) (cause : BuildError) (after : FileTree) (index : Nat)
    (artifact : String) (made : FileTree) : Prop where
  artifact_eq : artifacts[index]? = some artifact
  /-- The artifacts before it alone are compiled. -/
  compiled : (project.compileAll context (artifacts.take index)).on tree
    = (.ok ((artifacts.take index).map project.path), made)
  /-- At most the folder of the artifact is new. -/
  left : after = made ∨ ∃ folder, FilePath.parent? (project.path artifact) = some folder
    ∧ made.makeFolders folder = .ok after
  files : ∀ place content,
    after.at? place = some (.file content) ↔ made.at? place = some (.file content)
  /-- What stands behind it makes no difference. -/
  later : ∀ others, (project.compileAll context (artifacts.take (index + 1) ++ others)).on tree
    = (.error cause, after)
  named : project.NamesArtifact artifact cause.message

theorem stopsAt_head {artifacts : List String} {cause : BuildError}
    (h : (project.compile context artifact).on tree = (.error cause, after)) :
    project.StopsAt context tree (artifact :: artifacts) cause after 0 artifact tree := by
  have herror := compileError_of_on_compile h
  refine ⟨rfl, on_compileAll_nil, herror.left, fun place content => ?_, fun others => ?_,
    herror.namesArtifact⟩
  · rcases herror.left with rfl | ⟨folder, -, hmade⟩
    · rfl
    · exact FileTree.at?_eq_file_iff_of_makeFolders hmade place content
  · exact on_compileAll_cons_eq_error_iff.2 (.inl h)

theorem StopsAt.cons {first : String} {artifacts : List String} {cause : BuildError}
    {index : Nat} {between made : FileTree}
    (hfirst : (project.compile context first).on tree = (.ok (project.path first), between))
    (h : project.StopsAt context between artifacts cause after index artifact made) :
    project.StopsAt context tree (first :: artifacts) cause after (index + 1) artifact made where
  artifact_eq := h.artifact_eq
  compiled := on_compileAll_cons_eq_ok_iff.2 ⟨between, _, hfirst, h.compiled, rfl⟩
  left := h.left
  files := h.files
  later others := on_compileAll_cons_eq_error_iff.2 (.inr ⟨between, hfirst, h.later others⟩)
  named := h.named

/-- A run that fails stops somewhere. -/
theorem exists_stopsAt {artifacts : List String} {cause : BuildError}
    (h : (project.compileAll context artifacts).on tree = (.error cause, after)) :
    ∃ index artifact made,
      project.StopsAt context tree artifacts cause after index artifact made := by
  -- the first artifact fails, or the rest does on the tree that compiling the first one left
  induction artifacts generalizing tree with
  | nil =>
    rw [on_compileAll_nil] at h
    simp at h
  | cons first rest ih =>
    rcases on_compileAll_cons_eq_error_iff.1 h with hfirst | ⟨between, hfirst, hrest⟩
    · exact ⟨0, first, tree, stopsAt_head hfirst⟩
    · obtain ⟨index, artifact, made, hstops⟩ := ih hrest
      exact ⟨index + 1, artifact, made, hstops.cons hfirst⟩

theorem StopsAt.le {artifacts : List String} {cause cause' : BuildError}
    {after' made made' : FileTree} {index index' : Nat} {artifact' : String}
    (h : project.StopsAt context tree artifacts cause after index artifact made)
    (h' : project.StopsAt context tree artifacts cause' after' index' artifact' made') :
    index' ≤ index := by
  by_cases hle : index' ≤ index
  · exact hle
  · -- the artifacts before the later place would hold the earlier one
    have hsplit : artifacts.take index' = artifacts.take (index + 1)
        ++ (artifacts.take index').drop (index + 1) := by
      have htake : (artifacts.take index').take (index + 1) = artifacts.take (index + 1) := by
        rw [List.take_take, Nat.min_eq_left (by omega)]
      rw [← htake, List.take_append_drop]
    have hcompiled := h'.compiled
    rw [hsplit, h.later] at hcompiled
    cases congrArg Prod.fst hcompiled

/-- Compiling artifacts gives their paths in order, or it stops at exactly one of them. Those
before it alone are compiled, the files are then what they make of them, at most the folder of
the one that fails is new, nothing behind it plays a part, and the error names it. -/
theorem compileAll_stops_at_one (project : Project) (context : RenderContext) (tree : FileTree)
    (artifacts : List String) :
    (∀ paths after, (project.compileAll context artifacts).on tree = (.ok paths, after) →
        paths = artifacts.map project.path)
      ∧ ∀ cause after, (project.compileAll context artifacts).on tree = (.error cause, after) →
        ∃ index artifact made,
          project.StopsAt context tree artifacts cause after index artifact made
            ∧ ∀ index' artifact' made',
              project.StopsAt context tree artifacts cause after index' artifact' made' →
                index' = index := by
  refine ⟨fun _ _ h => paths_of_compileAll h, fun cause after h => ?_⟩
  obtain ⟨index, artifact, made, hstops⟩ := exists_stopsAt h
  exact ⟨index, artifact, made, hstops,
    fun _ _ _ hother => Nat.le_antisymm (hstops.le hother) (hother.le hstops)⟩

/-- A project whose second artifact is rendered from its first one, and whose third one has no
template. -/
def chainProject : Project := ⟨".", {}, .none⟩

def chainContext : RenderContext := ⟨[("name", .string "hub")], .empty, .nginx⟩

def chainTree : FileTree := ⟨[
  (["b.mustache.mustache"], .file (.text "\x7b\x7bname\x7d\x7d \\\x7b\x7bname\x7d\x7d")),
  (["d.mustache"], .file (.text "\x7b\x7bname\x7d\x7d"))]⟩

theorem compileAll_stops_at_one_chain :
    (∃ after, (chainProject.compileAll chainContext ["b.mustache", "b"]).on chainTree
        = (.ok ["./b.mustache", "./b"], after))
      ∧ ∃ cause after index artifact made,
        (chainProject.compileAll chainContext ["b.mustache", "b", "c", "d"]).on chainTree
            = (.error cause, after)
          ∧ chainProject.StopsAt chainContext chainTree ["b.mustache", "b", "c", "d"] cause after
            index artifact made := by
  constructor
  · have hends : (chainProject.compileAll chainContext ["b.mustache", "b"]).endsWith chainTree
        (fun _ _ => True) = true := by decide +kernel
    obtain ⟨paths, after, hrun, -⟩ := Build.exists_of_endsWith hends
    have hpaths := (compileAll_stops_at_one _ _ _ _).1 paths after hrun
    exact ⟨after, by rw [hrun, hpaths]; rfl⟩
  · have hfails : ((chainProject.compileAll chainContext ["b.mustache", "b", "c", "d"]).on
        chainTree).1.isOk = false := by decide +kernel
    rcases hrun : (chainProject.compileAll chainContext ["b.mustache", "b", "c", "d"]).on chainTree
      with ⟨cause | paths, after⟩
    · obtain ⟨index, artifact, made, hstops, -⟩ :=
        (compileAll_stops_at_one _ _ _ _).2 cause after hrun
      exact ⟨cause, after, index, artifact, made, rfl, hstops⟩
    · rw [hrun] at hfails
      cases hfails

end Project

end HubRules
