import HubRules.Command.Run
import HubRules.Proofs.Project.Steps
import HubRules.Proofs.Text.Tokens

/-!
# Steps of commands

What a command does to a file tree, from what its steps do. Opening a project changes nothing, and
a template is named by its artifact or by its file (`artifactName_artifact`,
`artifactName_source`).
-/

namespace HubRules.Command

open Outcome

variable {α β : Type} {tree after : FileTree}

/-- A command taken on a tree: its result, and the tree that it leaves. -/
def on (command : ExceptT CommandError (StateM FileTree) α) (tree : FileTree) :
    Except CommandError α × FileTree :=
  StateT.run (ExceptT.run command) tree

@[simp] theorem on_pure (a : α) : on (pure a) tree = (.ok a, tree) := rfl

theorem on_get : on get tree = (.ok tree, tree) := rfl

theorem on_step (build : Build α) :
    on (step build) tree = ((build.on tree).1.mapError .build, (build.on tree).2) := rfl

theorem on_step_eq_ok {build : Build α} {a : α} (h : build.on tree = (.ok a, after)) :
    on (step build) tree = (.ok a, after) := by
  rw [on_step, h]
  rfl

theorem on_bind_eq_ok {command : ExceptT CommandError (StateM FileTree) α}
    {next : α → ExceptT CommandError (StateM FileTree) β} {a : α} {between : FileTree}
    (h : on command tree = (.ok a, between)) :
    on (command >>= next) tree = on (next a) between := by
  show StateT.run (ExceptT.run (command >>= next)) tree = _
  rw [ExceptT.run_bind, StateT.run_bind]
  rw [show StateT.run (ExceptT.run command) tree = (.ok a, between) from h]
  rfl

theorem on_openProject {options : ProjectOptions} {lookup : String → Option String}
    {inputs : BuildInputs} {settings : Settings} (hfolder : tree.isFolder options.root = true)
    (hinputs : Command.inputs options lookup = .ok inputs)
    (hsettings : Settings.load tree options.root = .ok settings) :
    on (openProject options lookup) tree = (.ok ⟨options.root,
      { settings with strict := options.strict || settings.strict }, inputs⟩, tree) := by
  have hread : on (step (Build.ofExcept .configuration (Command.inputs options lookup))) tree
      = (.ok inputs, tree) := on_step_eq_ok (by rw [Build.on_ofExcept, hinputs]; rfl)
  have hopened : on (step (Build.ofExcept id (Project.open_ tree options.root inputs))) tree
      = (.ok ⟨options.root, settings, inputs⟩, tree) :=
    on_step_eq_ok (by rw [Build.on_ofExcept, Project.open_, hsettings]; rfl)
  unfold openProject
  rw [on_bind_eq_ok on_get, hfolder]
  simp only [Bool.not_true, Bool.false_eq_true, if_false]
  rw [on_bind_eq_ok hread, on_bind_eq_ok on_get, on_bind_eq_ok hopened]
  rfl

/-! ## Names of templates -/

theorem strip_of_not_suffix {name : Text} (h : ¬".mustache".toList.isSuffixOf name = true)
    (limit : Nat) : artifactName.strip limit name = name := by
  cases limit with
  | zero => rfl
  | succ limit =>
    unfold artifactName.strip Text.dropEnding?
    rw [if_neg h]

theorem artifactName_artifact {artifact : String}
    (h : ¬".mustache".toList.isSuffixOf artifact.toList = true) :
    artifactName artifact = artifact := by
  unfold artifactName
  rw [strip_of_not_suffix h, String.ofList_toList]

theorem artifactName_source {artifact : String}
    (h : ¬".mustache".toList.isSuffixOf artifact.toList = true) :
    artifactName (templateSource artifact) = artifact := by
  have hlength : (templateSource artifact).length = artifact.length + 8 + 1 := by
    unfold templateSource
    rw [String.length_append]
    rfl
  unfold artifactName
  rw [hlength, artifactName.strip, templateSource, String.toList_append, Text.dropEnding?_append]
  dsimp only
  rw [strip_of_not_suffix h, String.ofList_toList]

end HubRules.Command
