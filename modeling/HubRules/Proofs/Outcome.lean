/-!
# Outcomes

Computations that end in a value or in an error. A computation in steps has a value if every
step has one (`bind_eq_ok_iff`), and a run over a list ends in the error of the first item that
fails (`mapM_eq_error_iff`). Two computations have the same outcome if they end in the same error
or in values that are related (`SameOutcome`), and one refines another if it has every value that
the other one has (`Refines`).
-/

namespace HubRules.Outcome

variable {α β γ δ ε ε' : Type}

theorem bind_eq_ok_iff {first : Except ε α} {next : α → Except ε β} {b : β} :
    (first >>= next) = .ok b ↔ ∃ a, first = .ok a ∧ next a = .ok b := by
  cases first with
  | error e =>
    constructor
    · intro h
      cases h
    · rintro ⟨_, h, -⟩
      cases h
  | ok a =>
    constructor
    · exact fun h => ⟨a, rfl, h⟩
    · rintro ⟨_, h, hnext⟩
      rw [← Except.ok.inj h] at hnext
      exact hnext

theorem mapError_ok (f : ε → ε') (a : α) : (Except.ok a).mapError f = .ok a := rfl

theorem mapError_error (f : ε → ε') (cause : ε) :
    (.error cause : Except ε α).mapError f = .error (f cause) := rfl

theorem mapError_eq_ok_iff {result : Except ε α} {f : ε → ε'} {a : α} :
    result.mapError f = .ok a ↔ result = .ok a := by
  cases result with
  | error e => constructor <;> intro h <;> cases h
  | ok b => constructor <;> exact fun h => congrArg Except.ok (Except.ok.inj h)

theorem exists_of_map_eq_ok {f : α → β} {result : Except ε α} {b : β}
    (h : result.map f = .ok b) : ∃ a, result = .ok a ∧ f a = b := by
  cases result with
  | error cause => cases h
  | ok a => exact ⟨a, rfl, Except.ok.inj h⟩

theorem map_map (f : α → β) (g : β → γ) (result : Except ε α) :
    (result.map f).map g = result.map fun a => g (f a) := by
  cases result <;> rfl

theorem exists_eq_ok {result : Except ε α} (h : result.isOk = true) : ∃ a, result = .ok a := by
  cases result with
  | error cause => cases h
  | ok a => exact ⟨a, rfl⟩

theorem eq_ok_of_toOption {result : Except ε α} {a : α} (h : result.toOption = some a) :
    result = .ok a := by
  cases result with
  | error cause => cases h
  | ok b => exact congrArg Except.ok (Option.some.inj h)

/-! ## Runs over lists -/

theorem bind_pure_eq_error_iff {first : Except ε α} {value : α → β} {cause : ε} :
    (first >>= fun a => pure (value a)) = .error cause ↔ first = .error cause := by
  cases first with
  | error e => constructor <;> intro h <;> exact congrArg Except.error (Except.error.inj h)
  | ok a => constructor <;> intro h <;> cases h

theorem mapM_cons_eq_ok_iff {f : α → Except ε β} {a : α} {rest : List α} {results : List β} :
    (a :: rest).mapM f = .ok results ↔
      ∃ b more, f a = .ok b ∧ rest.mapM f = .ok more ∧ results = b :: more := by
  rw [List.mapM_cons, bind_eq_ok_iff]
  constructor
  · intro ⟨b, hfirst, hrun⟩
    obtain ⟨more, hrest, hrun⟩ := bind_eq_ok_iff.1 hrun
    exact ⟨b, more, hfirst, hrest, (Except.ok.inj hrun).symm⟩
  · intro ⟨b, more, hfirst, hrest, hresults⟩
    exact ⟨b, hfirst, bind_eq_ok_iff.2 ⟨more, hrest, congrArg Except.ok hresults.symm⟩⟩

/-- What a function finds in the results of a run over a list is what another one finds in the
list, if it is so for every item. -/
theorem map_eq_map_of_mapM {f : α → Except ε β} {g : β → γ} {k : α → γ}
    (h : ∀ a b, f a = .ok b → g b = k a) {list : List α} {results : List β}
    (hrun : list.mapM f = .ok results) : results.map g = list.map k := by
  induction list generalizing results with
  | nil =>
    obtain rfl : [] = results := Except.ok.inj hrun
    rfl
  | cons a rest ih =>
    obtain ⟨b, more, hfirst, hrest, rfl⟩ := mapM_cons_eq_ok_iff.1 hrun
    rw [List.map_cons, List.map_cons, h a b hfirst, ih hrest]

theorem mapM_eq_ok_of_change {f : α → Except ε β} {g : α → Except ε γ} {change : β → γ}
    (h : ∀ a b, f a = .ok b → g a = .ok (change b)) {list : List α} {results : List β}
    (hrun : list.mapM f = .ok results) : list.mapM g = .ok (results.map change) := by
  induction list generalizing results with
  | nil =>
    obtain rfl : [] = results := Except.ok.inj hrun
    rfl
  | cons a rest ih =>
    obtain ⟨b, more, hfirst, hrest, rfl⟩ := mapM_cons_eq_ok_iff.1 hrun
    exact mapM_cons_eq_ok_iff.2 ⟨change b, more.map change, h a b hfirst, ih hrest, rfl⟩

theorem mapM_filter_eq_ok {f : α → Except ε β} {keep : α → Bool} {keepResult : β → Bool}
    (h : ∀ a b, f a = .ok b → keepResult b = keep a) {list : List α} {results : List β}
    (hrun : list.mapM f = .ok results) :
    (list.filter keep).mapM f = .ok (results.filter keepResult) := by
  induction list generalizing results with
  | nil =>
    obtain rfl : [] = results := Except.ok.inj hrun
    rfl
  | cons a rest ih =>
    obtain ⟨b, more, hfirst, hrest, rfl⟩ := mapM_cons_eq_ok_iff.1 hrun
    rw [List.filter_cons, List.filter_cons, h a b hfirst]
    split
    · exact mapM_cons_eq_ok_iff.2 ⟨b, more.filter keepResult, hfirst, ih hrest, rfl⟩
    · exact ih hrest

/-- A run ends in the error of the first item that fails. -/
theorem mapM_eq_error_iff {f : α → Except ε β} {list : List α} {cause : ε} :
    list.mapM f = .error cause ↔
      ∃ a, list.find? (fun a => !(f a).isOk) = some a ∧ f a = .error cause := by
  induction list with
  | nil => simp [pure, Except.pure]
  | cons a rest ih =>
    rw [List.mapM_cons, List.find?_cons]
    cases hfirst : f a with
    | error e =>
      show Except.error e = Except.error cause ↔ ∃ b, some a = some b ∧ f b = .error cause
      simp [hfirst]
    | ok b => exact bind_pure_eq_error_iff.trans ih

/-- A run over parts, whose results are put together part by part, fails like one run over all
that is in them. -/
theorem mapM_flatMap_eq_error_iff {f : α → Except ε β} {parts : γ → List α}
    {put : γ → List β → δ} {list : List γ} {cause : ε} :
    list.mapM (fun c => (parts c).mapM f >>= fun bs => pure (put c bs)) = .error cause ↔
      (list.flatMap parts).mapM f = .error cause := by
  induction list with
  | nil => simp [pure, Except.pure]
  | cons c rest ih =>
    rw [List.mapM_cons, List.flatMap_cons, List.mapM_append]
    cases (parts c).mapM f with
    | error e =>
      show Except.error e = Except.error cause ↔ Except.error e = Except.error cause
      simp only [Except.error.injEq]
    | ok bs => exact bind_pure_eq_error_iff.trans (ih.trans bind_pure_eq_error_iff.symm)

/-! ## The same outcome -/

/-- Two computations that end in the same error, or in related values. -/
inductive SameOutcome (related : α → β → Prop) : Except ε α → Except ε β → Prop where
  | ok {a : α} {b : β} (h : related a b) : SameOutcome related (.ok a) (.ok b)
  | error (cause : ε) : SameOutcome related (.error cause) (.error cause)

namespace SameOutcome

variable {α' β' : Type} {related : α → β → Prop} {related' : α' → β' → Prop}

/-- Steps that go on alike from related values have the same outcome. -/
theorem bind {first : Except ε α} {second : Except ε β} {next : α → Except ε α'}
    {next' : β → Except ε β'} (h : SameOutcome related first second)
    (hnext : ∀ a b, related a b → SameOutcome related' (next a) (next' b)) :
    SameOutcome related' (first >>= next) (second >>= next') := by
  cases h with
  | ok h => exact hnext _ _ h
  | error cause => exact .error cause

theorem bind_same (first : Except ε α) {next : α → Except ε α'} {next' : α → Except ε β'}
    (hnext : ∀ a, SameOutcome related' (next a) (next' a)) :
    SameOutcome related' (first >>= next) (first >>= next') := by
  cases first with
  | ok a => exact hnext a
  | error cause => exact .error cause

theorem mono {first : Except ε α} {second : Except ε β} {weaker : α → β → Prop}
    (h : SameOutcome related first second) (hweaker : ∀ a b, related a b → weaker a b) :
    SameOutcome weaker first second := by
  cases h with
  | ok h => exact .ok (hweaker _ _ h)
  | error cause => exact .error cause

theorem exists_ok {first : Except ε α} {b : β} (h : SameOutcome related first (.ok b)) :
    ∃ a, first = .ok a ∧ related a b := by
  cases h with
  | ok h => exact ⟨_, rfl, h⟩

end SameOutcome

/-! ## Refinement -/

/-- A second computation that has every value that the first one has. -/
def Refines (coarse fine : Except ε α) : Prop := ∀ a, coarse = .ok a → fine = .ok a

namespace Refines

variable {coarse fine : Except ε α}

theorem refl (result : Except ε α) : Refines result result := fun _ h => h

theorem error (cause : ε) : Refines (.error cause) fine := fun _ h => nomatch h

theorem bind {next next' : α → Except ε β} (h : Refines coarse fine)
    (hnext : ∀ a, Refines (next a) (next' a)) : Refines (coarse >>= next) (fine >>= next') := by
  intro b hb
  obtain ⟨a, ha, hb⟩ := bind_eq_ok_iff.1 hb
  exact bind_eq_ok_iff.2 ⟨a, h a ha, hnext a b hb⟩

theorem mapError {f f' : ε → ε'} (h : Refines coarse fine) :
    Refines (coarse.mapError f) (fine.mapError f') :=
  fun a ha => mapError_eq_ok_iff.2 (h a (mapError_eq_ok_iff.1 ha))

theorem ite {condition : Prop} [Decidable condition] {coarse' fine' : Except ε α}
    (h : Refines coarse fine) (h' : Refines coarse' fine') :
    Refines (if condition then coarse else coarse') (if condition then fine else fine') := by
  split
  · exact h
  · exact h'

end Refines

end HubRules.Outcome
