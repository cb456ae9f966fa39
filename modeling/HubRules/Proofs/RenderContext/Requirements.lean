import HubRules.Proofs.Outcome
import HubRules.RenderContext

/-!
# What a render context asks of a configuration

A render context can be assembled if the configuration holds three hosts and two texts, and
organizations where it lists any. These requirements are checked in their order, and the error is
that of the first one that fails (`assemble_decided`). A check is decided by its requirement
(`Decides`), and checks that follow one another by their requirements in a row (`Decides.bind`).
-/

namespace HubRules

open Outcome

/-- Whether a value is an object with the id of an organization and, if it has visualizations,
a list of their names. -/
def Json.IsOrganization (value : Json) : Prop :=
  ∃ (members : Members) (id : String), value = .object members
    ∧ members.get? "organization" = some (.string id)
    ∧ (members.get? "visualizations" = none
      ∨ ∃ texts, members.get? "visualizations" = some (.ofStrings texts))

def Json.ListsOrganizations (value : Json) : Prop :=
  ∃ items, value = .array items ∧ ∀ item ∈ items, item.IsOrganization

/-- What is asked of a configuration. -/
inductive Requirement where
  /-- The key holds a text. -/
  | text (key : String)
  /-- The key holds a text that is not empty. -/
  | host (key : String)
  /-- The organizations of the hub are a list of organizations, or there are none. -/
  | organizations

namespace Requirement

def textKey? : Requirement → Option String
  | .text key | .host key => some key
  | .organizations => none

def Holds (config : Configuration) : Requirement → Prop
  | .text key => ∃ s, config.get? key = some (.string s)
  | .host key => ∃ s, config.get? key = some (.string s) ∧ s ≠ ""
  | .organizations => ∀ value, config.get? "hub_organizations" = some value → value ≠ .null →
    value.ListsOrganizations

/-- How a configuration fails to meet a requirement; a `null` counts as absent. -/
inductive Fails (config : Configuration) : Requirement → ConfigError → Prop where
  | missing {requirement : Requirement} {key : String} (hkey : requirement.textKey? = some key)
    (h : config.get? key = none ∨ config.get? key = some .null) :
    Fails config requirement (.missingKey key)
  | wrongType {requirement : Requirement} {key : String} {value : Json}
    (hkey : requirement.textKey? = some key) (h : config.get? key = some value)
    (hnull : value ≠ .null) (htext : ∀ s, value ≠ .string s) :
    Fails config requirement (.wrongType key .text)
  | emptyHost {key : String} (h : config.get? key = some (.string "")) :
    Fails config (.host key) (.emptyHost key)
  | organizations {value : Json} (h : config.get? "hub_organizations" = some value)
    (hnull : value ≠ .null) (hlist : ¬value.ListsOrganizations) :
    Fails config .organizations (.wrongType "hub_organizations" .organizations)

variable {config : Configuration} {requirement : Requirement} {cause : ConfigError}

theorem Holds.text {key : String} (h : requirement.Holds config)
    (hkey : requirement.textKey? = some key) : ∃ s, config.get? key = some (.string s) := by
  cases requirement with
  | text => exact Option.some.inj hkey ▸ h
  | host => exact Option.some.inj hkey ▸ h.imp fun _ hs => hs.1
  | organizations => cases hkey

theorem Fails.not_holds (h : requirement.Fails config cause) : ¬requirement.Holds config := by
  intro holds
  cases h with
  | missing hkey h =>
    obtain ⟨s, hs⟩ := holds.text hkey
    rw [hs] at h
    simp at h
  | wrongType hkey h hnull htext =>
    obtain ⟨s, hs⟩ := holds.text hkey
    rw [hs] at h
    exact htext s (Option.some.inj h).symm
  | emptyHost h =>
    obtain ⟨s, hs, hne⟩ := holds
    rw [hs] at h
    exact hne (Json.string.inj (Option.some.inj h))
  | organizations h hnull hlist => exact hlist (holds _ h hnull)

theorem Fails.unique {other : ConfigError} (h : requirement.Fails config cause)
    (h' : requirement.Fails config other) : cause = other := by
  cases h <;> cases h' <;> simp_all [textKey?]

end Requirement

/-! ## The first requirement that fails -/

/-- Whether the error is that of the first requirement that the configuration fails to meet. -/
def FirstFails (config : Configuration) (requirements : List Requirement) (cause : ConfigError) :
    Prop :=
  ∃ before requirement behind, requirements = before ++ requirement :: behind
    ∧ (∀ earlier ∈ before, earlier.Holds config) ∧ requirement.Fails config cause

variable {config : Configuration} {requirement : Requirement} {cause : ConfigError}
  {first rest : List Requirement}

theorem firstFails_append_iff : FirstFails config (first ++ rest) cause ↔
    FirstFails config first cause
      ∨ (∀ requirement ∈ first, requirement.Holds config) ∧ FirstFails config rest cause := by
  constructor
  · rintro ⟨before, requirement, behind, heq, hbefore, hfails⟩
    -- the requirement that fails is one of `rest`, or it is one of `first`, unless `more` is empty
    rcases List.append_eq_append_iff.1 heq with ⟨more, rfl, hrest⟩ | ⟨more, hfirst, hbehind⟩
    · exact .inr ⟨fun q hq => hbefore q (List.mem_append_left more hq),
        more, requirement, behind, hrest,
        fun q hq => hbefore q (List.mem_append_right first hq), hfails⟩
    · cases more with
      | nil =>
        rw [List.append_nil] at hfirst
        exact .inr ⟨hfirst ▸ hbefore, [], requirement, behind, hbehind.symm, by simp, hfails⟩
      | cons next more =>
        obtain ⟨rfl, -⟩ := List.cons.inj hbehind
        exact .inl ⟨before, requirement, more, hfirst, hbefore, hfails⟩
  · rintro (⟨before, requirement, behind, rfl, hbefore, hfails⟩
      | ⟨hfirst, before, requirement, behind, rfl, hbefore, hfails⟩)
    · exact ⟨before, requirement, behind ++ rest, by simp, hbefore, hfails⟩
    · refine ⟨first ++ before, requirement, behind, by simp, fun q hq => ?_, hfails⟩
      exact (List.mem_append.1 hq).elim (hfirst q) (hbefore q)

theorem firstFails_singleton_iff :
    FirstFails config [requirement] cause ↔ requirement.Fails config cause := by
  constructor
  · rintro ⟨before, failing, behind, heq, -, hfails⟩
    cases before with
    | nil =>
      obtain ⟨rfl, -⟩ := List.cons.inj heq
      exact hfails
    | cons _ before => simp at heq
  · exact fun hfails => ⟨[], requirement, [], rfl, by simp, hfails⟩

/-- Whether a computation has a value exactly if the configuration meets all requirements, and
else ends in the error of the first one that fails. -/
structure Decides {α : Type} (config : Configuration) (requirements : List Requirement)
    (outcome : Except ConfigError α) : Prop where
  ok_iff : (∃ a, outcome = .ok a) ↔ ∀ requirement ∈ requirements, requirement.Holds config
  error_iff : ∀ cause, outcome = .error cause ↔ FirstFails config requirements cause

namespace Decides

variable {α β : Type} {outcome : Except ConfigError α}

theorem pure (config : Configuration) (a : α) :
    Decides config [] (Pure.pure a : Except ConfigError α) := by
  refine ⟨by simp [Pure.pure, Except.pure], fun cause => ?_⟩
  constructor
  · intro h
    cases h
  · rintro ⟨before, requirement, behind, heq, -⟩
    simp at heq

/-- Steps are decided by their requirements, those of the first step first. -/
theorem bind {step : Except ConfigError α} {next : α → Except ConfigError β}
    (hstep : Decides config first step) (hnext : ∀ a, Decides config rest (next a)) :
    Decides config (first ++ rest) (step >>= next) := by
  cases step with
  | error fault =>
    -- a requirement of `first` fails, so those of `rest` have no say
    have hfirst : FirstFails config first fault := (hstep.error_iff fault).1 rfl
    have hmissed : ¬∀ requirement ∈ first, requirement.Holds config := by
      rw [← hstep.ok_iff]
      rintro ⟨_, h⟩
      cases h
    refine ⟨⟨?_, fun h => absurd (fun q hq => h q (List.mem_append_left rest hq)) hmissed⟩,
      fun cause => ?_⟩
    · rintro ⟨_, h⟩
      cases h
    · rw [firstFails_append_iff, ← hstep.error_iff]
      show Except.error fault = Except.error cause ↔ _
      simp [hmissed]
  | ok a =>
    have hfirst := hstep.ok_iff.1 ⟨a, rfl⟩
    have hnone (cause : ConfigError) : ¬FirstFails config first cause := by
      rw [← hstep.error_iff]
      exact fun h => nomatch h
    refine ⟨?_, fun cause => ?_⟩
    · rw [List.forall_mem_append, ← (hnext a).ok_iff]
      exact ⟨fun h => ⟨hfirst, h⟩, fun h => h.2⟩
    · rw [firstFails_append_iff, ← (hnext a).error_iff cause]
      exact ⟨fun h => .inr ⟨hfirst, h⟩, fun h => (h.resolve_left (hnone cause)).2⟩

theorem of_holds (h : requirement.Holds config) (hok : ∃ a, outcome = .ok a) :
    Decides config [requirement] outcome := by
  obtain ⟨a, heq⟩ := hok
  refine ⟨by simpa [heq] using h, fun cause => ?_⟩
  rw [firstFails_singleton_iff, heq]
  exact ⟨fun hother => (nomatch hother), fun hfails => absurd h hfails.not_holds⟩

theorem of_fails (h : requirement.Fails config cause) (heq : outcome = .error cause) :
    Decides config [requirement] outcome := by
  refine ⟨by simpa [heq] using h.not_holds, fun other => ?_⟩
  rw [firstFails_singleton_iff, heq]
  constructor
  · intro hother
    exact Except.error.inj hother ▸ h
  · exact fun hother => congrArg Except.error (h.unique hother)

/-- What is decided by the same requirements ends alike. -/
theorem sameOutcome {requirements : List Requirement} {other : Except ConfigError β}
    (h : Decides config requirements outcome) (h' : Decides config requirements other) :
    SameOutcome (fun _ _ => True) outcome other := by
  cases outcome with
  | error cause =>
    rw [(h'.error_iff cause).2 ((h.error_iff cause).1 rfl)]
    exact .error cause
  | ok a =>
    obtain ⟨b, rfl⟩ := h'.ok_iff.2 (h.ok_iff.1 ⟨a, rfl⟩)
    exact .ok trivial

end Decides

/-! ## What is read of a configuration -/

/-- The text of a key is there, or what asks for it fails. -/
theorem text_cases (config : Configuration) (key : String) :
    (∃ s, config.get? key = some (.string s) ∧ config.text key = .ok s)
      ∨ ∃ cause, config.text key = .error cause
        ∧ ∀ requirement : Requirement, requirement.textKey? = some key →
          requirement.Fails config cause := by
  unfold Configuration.text
  split
  · next s hget => exact .inl ⟨s, hget, rfl⟩
  · next hget => exact .inr ⟨_, rfl, fun _ hkey => .missing hkey (.inr hget)⟩
  · next hget => exact .inr ⟨_, rfl, fun _ hkey => .missing hkey (.inl hget)⟩
  · next value htext hnull hget =>
    exact .inr ⟨_, rfl, fun _ hkey => .wrongType hkey hget hnull htext⟩

theorem decides_text (config : Configuration) (key : String) :
    Decides config [.text key] (config.text key) := by
  rcases text_cases config key with ⟨s, hget, htext⟩ | ⟨cause, htext, hfails⟩
  · exact .of_holds ⟨s, hget⟩ ⟨s, htext⟩
  · exact .of_fails (hfails (.text key) rfl) htext

theorem decides_hostParts (config : Configuration) (key : String) :
    Decides config [.host key] (config.hostParts key) := by
  unfold Configuration.hostParts
  rcases text_cases config key with ⟨s, hget, htext⟩ | ⟨cause, htext, hfails⟩
  · rw [htext]
    by_cases hempty : s = ""
    · subst hempty
      exact .of_fails (.emptyHost hget) rfl
    · refine .of_holds ⟨s, hget, hempty⟩ ?_
      have hfalse : s.isEmpty = false := by simpa using hempty
      simp only [bind, Except.bind, hfalse]
      cases Text.cut '.' s.toList <;> exact ⟨_, rfl⟩
  · rw [htext]
    exact .of_fails (hfails (.host key) rfl) rfl

/-! ## Organizations -/

theorem mapM_eq_some_iff {α β : Type} {f : α → Option β} {list : List α} :
    (∃ results, list.mapM f = some results) ↔ ∀ a ∈ list, ∃ b, f a = some b := by
  induction list with
  | nil => simp
  | cons a rest ih =>
    rw [List.forall_mem_cons, ← ih]
    cases hfirst : f a <;> cases hrest : rest.mapM f <;> simp [List.mapM_cons, hfirst, hrest]

theorem mapM_string?_eq_some_iff {items : List Json} {texts : List String} :
    items.mapM Json.string? = some texts ↔ items = texts.map .string := by
  induction items generalizing texts with
  | nil => simp [eq_comm]
  | cons item rest ih =>
    cases texts with
    | nil => cases item <;> simp [List.mapM_cons, Json.string?, Option.bind_eq_some_iff]
    | cons text texts =>
      cases item with
      | string found =>
        simpa [List.mapM_cons, Json.string?, Option.bind_eq_some_iff, ← ih] using and_comm
      | _ => simp [List.mapM_cons, Json.string?]

namespace Organization

theorem readTexts_eq_some_iff {value : Json} {texts : List String} :
    readTexts value = some texts ↔ value = .ofStrings texts := by
  cases value <;> simp [readTexts, Json.ofStrings, mapM_string?_eq_some_iff]

theorem read_eq_some_iff {value : Json} :
    (∃ organization, read value = some organization) ↔ value.IsOrganization := by
  unfold read Json.IsOrganization
  cases value with
  | object members =>
    cases hid : Members.get? members "organization" with
    | none => simp [Json.members?, hid]
    | some id =>
      cases id with
      | string id =>
        cases hlisted : Members.get? members "visualizations" with
        | none => simp [Json.members?, Json.string?, hid, hlisted]
        | some listed =>
          simp [Json.members?, Json.string?, hid, hlisted, Option.bind_eq_some_iff,
            readTexts_eq_some_iff, @exists_comm Organization]
      | _ => simp [Json.members?, Json.string?, hid]
  | _ => simp [Json.members?]

end Organization

theorem decides_organizations (config : Configuration) :
    Decides config [.organizations] config.organizations := by
  unfold Configuration.organizations
  split
  · next hget =>
    refine .of_holds (fun value hvalue => ?_) ⟨[], rfl⟩
    rw [hget] at hvalue
    cases hvalue
  · next hget =>
    refine .of_holds (fun value hvalue hnull => ?_) ⟨[], rfl⟩
    rw [hget] at hvalue
    exact absurd (Option.some.inj hvalue).symm hnull
  · next items hget =>
    have hread := @mapM_eq_some_iff _ _ Organization.read items
    simp only [Organization.read_eq_some_iff] at hread
    split
    · next organizations hsome =>
      refine .of_holds (fun value hvalue _ => ?_) ⟨organizations, rfl⟩
      rw [hget] at hvalue
      exact ⟨items, (Option.some.inj hvalue).symm, hread.1 ⟨organizations, hsome⟩⟩
    · next hnone =>
      refine .of_fails (.organizations hget (by simp) ?_) rfl
      rintro ⟨listed, heq, hitems⟩
      obtain ⟨organizations, hsome⟩ := hread.2 (Json.array.inj heq ▸ hitems)
      rw [hsome] at hnone
      cases hnone
  · next value hnull harray hget =>
    refine .of_fails (.organizations hget hnull ?_) rfl
    rintro ⟨items, heq, -⟩
    exact harray items heq

/-! ## Assembling -/

namespace RenderContext

/-- What a render context asks of a configuration, in the order of the checks. -/
def requirements : List Requirement :=
  [.host "control_host", .host "visualization_server", .host "jenkins_host", .organizations,
    .text "hub_regex", .text "hub_redirect"]

variable (resolution : Resolution) (catalog : CatalogView) (inputs : BuildInputs)

theorem decides_hubRedirect (base : Configuration) (engine : Engine) :
    Decides base [.text "hub_redirect"] (hubRedirect base engine) :=
  (decides_text base "hub_redirect").bind fun _ => .pure base _

theorem decides_derived :
    Decides resolution.base requirements (derived resolution catalog inputs) := by
  have hhost := decides_hostParts resolution.base
  refine (hhost "control_host").bind fun ⟨_, _⟩ => ?_
  refine (hhost "visualization_server").bind fun ⟨_, _⟩ => ?_
  refine (hhost "jenkins_host").bind fun ⟨_, _⟩ => ?_
  refine (decides_organizations resolution.base).bind fun _ => ?_
  refine (decides_text resolution.base "hub_regex").bind fun _ => ?_
  exact (decides_hubRedirect resolution.base resolution.engine).bind fun _ => .pure _ _

theorem decides_assemble :
    Decides resolution.base requirements (assemble resolution catalog inputs) :=
  (decides_derived resolution catalog inputs).bind fun _ => .pure _ _

/-- A render context can be assembled exactly if the configuration meets its requirements; else
the error is that of the first one that fails. Nothing else decides about it: for another engine,
environment, catalog and other inputs the context can be assembled too, or ends in the same
error. -/
theorem assemble_decided :
    ((∃ context, assemble resolution catalog inputs = .ok context)
        ↔ ∀ requirement ∈ requirements, requirement.Holds resolution.base)
      ∧ (∀ cause, assemble resolution catalog inputs = .error cause
        ↔ FirstFails resolution.base requirements cause)
      ∧ ∀ source engine environment displayMode otherCatalog otherInputs,
        SameOutcome (fun _ _ => True) (assemble resolution catalog inputs)
          (assemble { resolution with source, engine, environment, displayMode } otherCatalog
            otherInputs) := by
  have hdecided := decides_assemble resolution catalog inputs
  refine ⟨hdecided.ok_iff, hdecided.error_iff, ?_⟩
  intro source engine environment displayMode otherCatalog otherInputs
  exact hdecided.sameOutcome (decides_assemble
    { resolution with source, engine, environment, displayMode } otherCatalog otherInputs)

/-- The empty host comes before `jenkins_host`, which is missing, and the `null` behind it. -/
example :
    assemble { resolution with
      base.members := [("control_host", .string "c.example"), ("visualization_server", .string ""),
        ("hub_regex", .null)] } catalog inputs
      = .error (.emptyHost "visualization_server") := rfl

end RenderContext

end HubRules
