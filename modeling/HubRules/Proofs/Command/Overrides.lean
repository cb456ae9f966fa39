import HubRules.Command.Run

/-!
# Options over variables

The options of a command take precedence over the variables of the environment. A variable that
an option overrides still has to name an environment or an engine, if it is one of those two: so
environments that differ only in overridden variables give the same inputs exactly if the same is
wrong with their choices (`inputs_overridden_iff`).
-/

namespace HubRules

namespace BuildInputs

/-- What is wrong with the variables that choose the environment and the engine, of which the one
for the environment is read first. -/
def choiceFault? (lookup : String → Option String) : Option ConfigError :=
  match readChoice Environment.read (lookup "NODE_ENV"),
    readChoice Engine.read (lookup "VISUALIZATION_PROXY") with
  | .error cause, _ => some cause
  | .ok _, .error cause => some cause
  | .ok _, .ok _ => .none

end BuildInputs

def ProjectOptions.overridden (options : ProjectOptions) : List String :=
  (if options.environment.isSome then ["NODE_ENV"] else [])
    ++ (if options.engine.isSome then ["VISUALIZATION_PROXY"] else [])
    ++ (if options.organization.isSome then ["VISUALIZATION_ORGANIZATION"] else [])
    ++ if options.combined then ["VISUALIZATION_COMBINED"] else []

namespace Command

open BuildInputs

variable {options : ProjectOptions} {lookup first second : String → Option String}
  {cause : ConfigError}

/-- Two environments that differ at most in the variables that the options override. -/
def AgreeOutside (options : ProjectOptions) (first second : String → Option String) : Prop :=
  ∀ name, name ∉ options.overridden → first name = second name

/-! ## Choices -/

theorem choiceFault?_eq_none (h : choiceFault? lookup = .none) :
    ∃ environment engine, readChoice Environment.read (lookup "NODE_ENV") = .ok environment
      ∧ readChoice Engine.read (lookup "VISUALIZATION_PROXY") = .ok engine := by
  unfold choiceFault? at h
  split at h
  · cases h
  · cases h
  · next environment engine henvironment hengine => exact ⟨_, _, henvironment, hengine⟩

theorem readChoice_eq_error {α : Type} {read : Text → Except ConfigError α} {value : Option String}
    (h : readChoice read value = .error cause) : ∃ text, read text = .error cause := by
  unfold readChoice at h
  split at h
  · next text _ =>
    cases hread : read text.toList with
    | ok found =>
      rw [hread] at h
      cases h
    | error other =>
      rw [hread] at h
      exact ⟨_, hread.trans (congrArg _ (Except.error.inj h))⟩
  · cases h

theorem choiceFault?_eq_some (h : choiceFault? lookup = some cause) :
    ∃ name, cause = .unknownEnvironment name ∨ cause = .unknownEngine name := by
  unfold choiceFault? at h
  split at h
  · next henvironment =>
    obtain rfl := Option.some.inj h
    obtain ⟨text, hread⟩ := readChoice_eq_error henvironment
    unfold Environment.read at hread
    simp only at hread
    split at hread
    · cases hread
    · exact ⟨_, .inl (Except.error.inj hread).symm⟩
  · next hengine =>
    obtain rfl := Option.some.inj h
    obtain ⟨text, hread⟩ := readChoice_eq_error hengine
    unfold Engine.read at hread
    simp only at hread
    split at hread
    · cases hread
    · exact ⟨_, .inr (Except.error.inj hread).symm⟩
  · cases h

/-! ## Inputs -/

/-- A wrong choice is an error, whatever overrides it. -/
theorem inputs_of_choiceFault (h : choiceFault? lookup = some cause) :
    inputs options lookup = .error cause := by
  unfold choiceFault? at h
  unfold inputs BuildInputs.read
  split at h
  · next henvironment =>
    rw [henvironment, ← Option.some.inj h]
    rfl
  · next henvironment hengine =>
    rw [henvironment, hengine, ← Option.some.inj h]
    rfl
  · cases h

/-- Where the choices are right, the options go over them, and the numeric ids are read. -/
theorem inputs_of_choices {environment : Option Environment} {engine : Option Engine}
    (henvironment : readChoice Environment.read (lookup "NODE_ENV") = .ok environment)
    (hengine : readChoice Engine.read (lookup "VISUALIZATION_PROXY") = .ok engine) :
    inputs options lookup = readId "USER_ID" (lookup "USER_ID") >>= fun userId =>
      readId "GROUP_ID" (lookup "GROUP_ID") >>= fun groupId => .ok {
        environment := options.environment.orElse fun _ => environment
        organization := options.organization.orElse fun _ => lookup "VISUALIZATION_ORGANIZATION"
        combined := options.combined || lookup "VISUALIZATION_COMBINED" == some "true"
        names := (lookup "VISUALIZATION_NAMES").map fun names =>
          (Text.words names.toList).map String.ofList
        configurationFile := lookup configurationVariable
        engine := options.engine.orElse fun _ => engine
        jenkinsDirect := lookup "JENKINS_DIRECT"
        repoRoot := lookup "REPO_ROOT"
        serverCertificate := lookup "SERVER_CERTIFICATE"
        branchName := lookup "BRANCH_NAME"
        userId
        groupId } := by
  unfold inputs BuildInputs.read
  rw [henvironment, hengine]
  cases readId "USER_ID" (lookup "USER_ID") with
  | error cause => rfl
  | ok userId => cases readId "GROUP_ID" (lookup "GROUP_ID") <;> rfl

theorem readId_eq_error {key : String} {value : Option String}
    (h : readId key value = .error cause) : cause = .wrongType key .numericId := by
  unfold readId at h
  split at h
  · cases h
  · split at h
    · cases h
    · exact (Except.error.inj h).symm

/-- Where the choices are right, all that can be wrong is a numeric id. -/
theorem wrongType_of_inputs (hchoices : choiceFault? lookup = .none)
    (h : inputs options lookup = .error cause) : ∃ key, cause = .wrongType key .numericId := by
  obtain ⟨environment, engine, henvironment, hengine⟩ := choiceFault?_eq_none hchoices
  rw [inputs_of_choices henvironment hengine] at h
  cases huser : readId "USER_ID" (lookup "USER_ID") with
  | error other =>
    rw [huser] at h
    rw [← Except.error.inj h]
    exact ⟨_, readId_eq_error huser⟩
  | ok userId =>
    rw [huser] at h
    cases hgroup : readId "GROUP_ID" (lookup "GROUP_ID") with
    | error other =>
      rw [hgroup] at h
      rw [← Except.error.inj h]
      exact ⟨_, readId_eq_error hgroup⟩
    | ok groupId =>
      rw [hgroup] at h
      cases h

theorem mem_overridden_iff {name : String} : name ∈ options.overridden ↔
    (name = "NODE_ENV" ∧ options.environment.isSome)
      ∨ (name = "VISUALIZATION_PROXY" ∧ options.engine.isSome)
      ∨ (name = "VISUALIZATION_ORGANIZATION" ∧ options.organization.isSome)
      ∨ (name = "VISUALIZATION_COMBINED" ∧ options.combined = true) := by
  have hone : ∀ (given : Bool) (key : String),
      name ∈ (if given then [key] else []) ↔ name = key ∧ given = true := by
    intro given key
    cases given <;> simp
  unfold ProjectOptions.overridden
  simp only [List.mem_append, hone, or_assoc]

/-- Where the choices are right, nothing that an option overrides matters. -/
theorem AgreeOutside.inputs_eq (h : AgreeOutside options first second)
    (hfirst : choiceFault? first = .none) (hsecond : choiceFault? second = .none) :
    inputs options first = inputs options second := by
  obtain ⟨environment, engine, henvironment, hengine⟩ := choiceFault?_eq_none hfirst
  obtain ⟨environment', engine', henvironment', hengine'⟩ := choiceFault?_eq_none hsecond
  have hchosen : (options.environment.orElse fun _ => environment)
      = options.environment.orElse fun _ => environment' := by
    cases hoption : options.environment with
    | some _ => rfl
    | none =>
      rw [h "NODE_ENV" (by simp [mem_overridden_iff, hoption]), henvironment'] at henvironment
      rw [Except.ok.inj henvironment]
  have hproxy : (options.engine.orElse fun _ => engine)
      = options.engine.orElse fun _ => engine' := by
    cases hoption : options.engine with
    | some _ => rfl
    | none =>
      rw [h "VISUALIZATION_PROXY" (by simp [mem_overridden_iff, hoption]), hengine'] at hengine
      rw [Except.ok.inj hengine]
  have horganization : (options.organization.orElse fun _ => first "VISUALIZATION_ORGANIZATION")
      = options.organization.orElse fun _ => second "VISUALIZATION_ORGANIZATION" := by
    cases hoption : options.organization with
    | some _ => rfl
    | none => rw [h "VISUALIZATION_ORGANIZATION" (by simp [mem_overridden_iff, hoption])]
  have hcombined : (options.combined || first "VISUALIZATION_COMBINED" == some "true")
      = (options.combined || second "VISUALIZATION_COMBINED" == some "true") := by
    cases hoption : options.combined with
    | true => rfl
    | false => rw [h "VISUALIZATION_COMBINED" (by simp [mem_overridden_iff, hoption])]
  -- no option is for any of the other variables
  have hother : ∀ name ∈ ["USER_ID", "GROUP_ID", "VISUALIZATION_NAMES", configurationVariable,
      "JENKINS_DIRECT", "REPO_ROOT", "SERVER_CERTIFICATE", "BRANCH_NAME"],
      first name = second name := by
    intro name hname
    refine h name fun hmem => ?_
    rcases mem_overridden_iff.1 hmem with ⟨rfl, -⟩ | ⟨rfl, -⟩ | ⟨rfl, -⟩ | ⟨rfl, -⟩ <;>
      exact absurd hname (by decide)
  simp only [List.forall_mem_cons] at hother
  obtain ⟨huser, hgroup, hnames, hfile, hdirect, hroot, hcertificate, hbranch, -⟩ := hother
  rw [inputs_of_choices henvironment hengine, inputs_of_choices henvironment' hengine', hchosen,
    hproxy, horganization, hcombined, huser, hgroup, hnames, hfile, hdirect, hroot, hcertificate,
    hbranch]

theorem inputs_ne_of_choiceFault (hfirst : choiceFault? first = some cause)
    (hsecond : choiceFault? second = .none) : inputs options first ≠ inputs options second := by
  intro heq
  rw [inputs_of_choiceFault hfirst] at heq
  obtain ⟨key, htype⟩ := wrongType_of_inputs hsecond heq.symm
  obtain ⟨name, hname⟩ := choiceFault?_eq_some hfirst
  rw [htype] at hname
  rcases hname with hname | hname <;> cases hname

/-- Environments that differ only in overridden variables give the same inputs exactly if the same
is wrong with their choices. -/
theorem AgreeOutside.inputs_eq_iff (h : AgreeOutside options first second) :
    inputs options first = inputs options second ↔ choiceFault? first = choiceFault? second := by
  cases hfirst : choiceFault? first with
  | none =>
    cases hsecond : choiceFault? second with
    | none => simpa using h.inputs_eq hfirst hsecond
    | some cause => simpa using (inputs_ne_of_choiceFault hsecond hfirst).symm
  | some cause =>
    cases hsecond : choiceFault? second with
    | none => simpa using inputs_ne_of_choiceFault hfirst hsecond
    | some other => simp [inputs_of_choiceFault hfirst, inputs_of_choiceFault hsecond]

/-- The variables with a value for one of them. -/
def withVariable (name value : String) (lookup : String → Option String) :
    String → Option String :=
  fun key => if key = name then some value else lookup key

theorem agreeOutside_withVariable {name : String} (hname : name ∈ options.overridden)
    (value : String) (lookup : String → Option String) :
    AgreeOutside options (withVariable name value lookup) lookup := by
  intro key hkey
  refine if_neg fun heq => hkey ?_
  rw [heq]
  exact hname

/-- What an option for the environment or the engine overrides can still be wrong. -/
theorem exists_inputs_ne (h : options.environment.isSome ∨ options.engine.isSome) :
    ∃ first second, AgreeOutside options first second
      ∧ inputs options first ≠ inputs options second := by
  rcases h with hgiven | hgiven
  · refine ⟨_, _, agreeOutside_withVariable (mem_overridden_iff.2 (.inl ⟨rfl, hgiven⟩)) "staging"
      fun _ => .none, ?_⟩
    exact inputs_ne_of_choiceFault
      (show choiceFault? _ = some (.unknownEnvironment "staging") by decide) (by decide)
  · refine ⟨_, _, agreeOutside_withVariable (mem_overridden_iff.2 (.inr (.inl ⟨rfl, hgiven⟩)))
      "staging" fun _ => .none, ?_⟩
    exact inputs_ne_of_choiceFault
      (show choiceFault? _ = some (.unknownEngine "staging") by decide) (by decide)

/-- What the variables that options override have to do with the inputs of a command. Environments
that differ only there give the same inputs, or the same error, exactly if the same is wrong with
their choices of an environment and an engine. It is so for all of them exactly if neither of the
two is chosen by an option. -/
theorem inputs_overridden_iff (options : ProjectOptions) :
    (∀ first second, AgreeOutside options first second →
      (inputs options first = inputs options second ↔ choiceFault? first = choiceFault? second))
    ∧ ((∀ first second, AgreeOutside options first second →
        inputs options first = inputs options second) ↔
      options.environment = .none ∧ options.engine = .none) := by
  refine ⟨fun _ _ h => h.inputs_eq_iff, ?_, ?_⟩
  · intro h
    have hnot : ¬(options.environment.isSome ∨ options.engine.isSome) := by
      intro hgiven
      obtain ⟨first, second, hagree, hne⟩ := exists_inputs_ne hgiven
      exact hne (h first second hagree)
    exact ⟨Option.not_isSome_iff_eq_none.1 fun hgiven => hnot (.inl hgiven),
      Option.not_isSome_iff_eq_none.1 fun hgiven => hnot (.inr hgiven)⟩
  · rintro ⟨henvironment, hengine⟩ first second h
    -- neither choice is overridden, so both environments make the same ones
    refine h.inputs_eq_iff.2 ?_
    unfold choiceFault?
    rw [h "NODE_ENV" (by simp [mem_overridden_iff, henvironment]),
      h "VISUALIZATION_PROXY" (by simp [mem_overridden_iff, hengine])]

/-- Options that choose the environment for development and one organization. -/
def developmentOptions : ProjectOptions :=
  ⟨".", some .development, .none, some "alpha", false, false⟩

/-- The variables of an environment that names its kind and nothing else. -/
def environmentVariable (value : String) : String → Option String :=
  withVariable "NODE_ENV" value fun _ => .none

theorem inputs_overridden_iff_development :
    AgreeOutside developmentOptions (environmentVariable "production") (environmentVariable "test")
      ∧ inputs developmentOptions (environmentVariable "production")
        = inputs developmentOptions (environmentVariable "test") := by
  have hagree : AgreeOutside developmentOptions (environmentVariable "production")
      (environmentVariable "test") := by
    intro key hkey
    have hkept : ∀ value, environmentVariable value key = .none := fun value =>
      agreeOutside_withVariable (by decide) value (fun _ => .none) key hkey
    rw [hkept, hkept]
  exact ⟨hagree, ((inputs_overridden_iff developmentOptions).1 _ _ hagree).2 (by decide)⟩

/-- A name of no environment fails the command that chooses its environment by an option. -/
theorem inputs_rejects_overridden_choice :
    AgreeOutside developmentOptions (environmentVariable "staging") (fun _ => .none)
      ∧ inputs developmentOptions (environmentVariable "staging")
        = .error (.unknownEnvironment "staging")
      ∧ inputs developmentOptions (fun _ => .none) = .ok { BuildInputs.none with
          environment := some .development, organization := some "alpha" } :=
  ⟨agreeOutside_withVariable (by decide) _ _, rfl, rfl⟩

end Command

end HubRules
