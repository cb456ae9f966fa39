import HubRules.Project
import HubRules.Proofs.FileTree.Growth

/-!
# Steps of a build

What the steps of a build do to a file tree. A step that reads leaves the tree as it is, a step
that writes sets what it writes or leaves the tree as it is, and a step that follows another one
starts with the tree that this one left (`Build.on_bind_eq_ok_iff`). Steps that only read give the
same on trees that show them the same (`Build.Alike`).
-/

namespace HubRules

open Outcome

namespace Build

variable {α β ε : Type} {tree after : FileTree}

/-- A step taken on a tree: its result, and the tree that it leaves. -/
def on (step : Build α) (tree : FileTree) : Except BuildError α × FileTree :=
  StateT.run (ExceptT.run step) tree

@[simp] theorem on_pure (a : α) : Build.on (pure a) tree = (.ok a, tree) := rfl

@[simp] theorem on_get : Build.on get tree = (.ok tree, tree) := rfl

@[simp] theorem on_ofExcept (wrap : ε → BuildError) (result : Except ε α) :
    (ofExcept wrap result).on tree = (result.mapError wrap, tree) := rfl

@[simp] theorem on_reading (activity : Activity) (wrap : ε → BuildError)
    (read : FileTree → Except ε α) :
    (reading activity wrap read).on tree = (activity.run wrap (read tree), tree) := rfl

theorem on_bind (step : Build α) (next : α → Build β) :
    Build.on (step >>= next) tree =
      match step.on tree with
      | (.ok a, between) => (next a).on between
      | (.error cause, between) => (.error cause, between) := by
  show StateT.run (ExceptT.run (step >>= next)) tree = _
  rw [ExceptT.run_bind, StateT.run_bind]
  unfold on
  rcases StateT.run (ExceptT.run step) tree with ⟨_ | _, between⟩ <;> rfl

theorem on_bind_eq_ok_iff {step : Build α} {next : α → Build β} {b : β} :
    Build.on (step >>= next) tree = (.ok b, after) ↔
      ∃ a between, step.on tree = (.ok a, between) ∧ (next a).on between = (.ok b, after) := by
  rw [on_bind]
  rcases step.on tree with ⟨_ | a, between⟩
  · simp
  · simp only [Prod.mk.injEq, Except.ok.injEq]
    constructor
    · exact fun h => ⟨a, between, ⟨rfl, rfl⟩, h⟩
    · rintro ⟨_, _, ⟨rfl, rfl⟩, h⟩
      exact h

theorem on_bind_eq_error_iff {step : Build α} {next : α → Build β} {cause : BuildError} :
    Build.on (step >>= next) tree = (.error cause, after) ↔
      step.on tree = (.error cause, after) ∨
        ∃ a between, step.on tree = (.ok a, between)
          ∧ (next a).on between = (.error cause, after) := by
  rw [on_bind]
  rcases step.on tree with ⟨_ | a, between⟩
  · simp
  · simp only [Prod.mk.injEq, Except.ok.injEq, reduceCtorEq, false_and, false_or]
    constructor
    · exact fun h => ⟨a, between, ⟨rfl, rfl⟩, h⟩
    · rintro ⟨_, _, ⟨rfl, rfl⟩, h⟩
      exact h

theorem on_map_eq_ok_iff {f : α → β} {step : Build α} {b : β} :
    Build.on (f <$> step) tree = (.ok b, after) ↔
      ∃ a, step.on tree = (.ok a, after) ∧ f a = b := by
  rw [map_eq_pure_bind, on_bind_eq_ok_iff]
  simp only [on_pure, Prod.mk.injEq, Except.ok.injEq]
  constructor
  · rintro ⟨a, _, hstep, heq, rfl⟩
    exact ⟨a, hstep, heq⟩
  · rintro ⟨a, hstep, heq⟩
    exact ⟨a, after, hstep, heq, rfl⟩

/-- A change of the tree that the system refuses changes nothing. -/
theorem on_changing (activity : Activity) (change : FileTree → Except FileError FileTree) :
    (changing activity change).on tree =
      match change tree with
      | .ok after => (.ok (), after)
      | .error cause => (.error (.during activity (.file cause)), tree) := by
  unfold changing
  rw [on_bind]
  simp only [on_get, on_bind, on_ofExcept]
  cases change tree <;> rfl

theorem on_changing_eq_ok_iff {activity : Activity}
    {change : FileTree → Except FileError FileTree} {done : Unit} :
    (changing activity change).on tree = (.ok done, after) ↔ change tree = .ok after := by
  rw [on_changing]
  cases change tree <;> simp

theorem on_changing_eq_error_iff {activity : Activity}
    {change : FileTree → Except FileError FileTree} {cause : BuildError} :
    (changing activity change).on tree = (.error cause, after) ↔
      ∃ reason, change tree = .error reason ∧ cause = .during activity (.file reason)
        ∧ after = tree := by
  rw [on_changing]
  cases change tree <;> simp [eq_comm]

theorem on_write_eq_ok_iff {activity : Activity} {path content : String} {done : Unit} :
    (write activity path content).on tree = (.ok done, after) ↔
      tree.write path (.text content) = .ok after :=
  on_changing_eq_ok_iff

/-- Whether a step ends well, with a result and a tree of which something holds. -/
def endsWith (step : Build α) (tree : FileTree) (P : α → FileTree → Prop)
    [∀ a after, Decidable (P a after)] : Bool :=
  match step.on tree with
  | (.ok a, after) => decide (P a after)
  | (.error _, _) => false

theorem exists_of_endsWith {step : Build α} {P : α → FileTree → Prop}
    [∀ a after, Decidable (P a after)] (h : step.endsWith tree P = true) :
    ∃ a after, step.on tree = (.ok a, after) ∧ P a after := by
  unfold endsWith at h
  rcases hrun : step.on tree with ⟨cause | a, after⟩
  · rw [hrun] at h
    cases h
  · rw [hrun] at h
    exact ⟨a, after, rfl, of_decide_eq_true h⟩

/-! ## Reading -/

/-- A step that leaves a tree as it is, and a second step that gives the same on another tree and
leaves that one as it is. -/
def Alike (tree other : FileTree) (step step' : Build α) : Prop :=
  ∀ a after, step.on tree = (.ok a, after) → after = tree ∧ step'.on other = (.ok a, other)

namespace Alike

variable {other : FileTree}

theorem pure (a : α) : Alike tree other (Pure.pure a) (Pure.pure a) := by
  rintro b after h
  rw [on_pure, Prod.mk.injEq] at h ⊢
  exact ⟨h.2.symm, h.1, rfl⟩

theorem ofExcept (wrap : ε → BuildError) (result : Except ε α) :
    Alike tree other (Build.ofExcept wrap result) (Build.ofExcept wrap result) := by
  rintro a after h
  rw [on_ofExcept, Prod.mk.injEq] at h ⊢
  exact ⟨h.2.symm, h.1, rfl⟩

theorem reading (activity : Activity) (wrap : ε → BuildError)
    {read read' : FileTree → Except ε α} (h : Refines (read tree) (read' other)) :
    Alike tree other (Build.reading activity wrap read) (Build.reading activity wrap read') := by
  rintro a after hrun
  rw [on_reading, Prod.mk.injEq] at hrun ⊢
  exact ⟨hrun.2.symm, h.mapError a hrun.1, rfl⟩

theorem bind {step step' : Build α} {next next' : α → Build β} (h : Alike tree other step step')
    (hnext : ∀ a, Alike tree other (next a) (next' a)) :
    Alike tree other (step >>= next) (step' >>= next') := by
  rintro b after hrun
  obtain ⟨a, between, hfirst, hsecond⟩ := on_bind_eq_ok_iff.1 hrun
  obtain ⟨rfl, hstep'⟩ := h a between hfirst
  obtain ⟨rfl, hrun'⟩ := hnext a b after hsecond
  exact ⟨rfl, on_bind_eq_ok_iff.2 ⟨a, other, hstep', hrun'⟩⟩

theorem get_bind {next next' : FileTree → Build α}
    (h : Alike tree other (next tree) (next' other)) :
    Alike tree other (get >>= next) (get >>= next') := by
  rintro a after hrun
  rw [on_bind, on_get] at hrun ⊢
  exact h a after hrun

end Alike

end Build

end HubRules
