import HubRules.Proofs.Outcome
import HubRules.Proofs.Url.Upstream
import HubRules.Resolution

/-!
# Resolving a resolved configuration

The overrides of a build are there once a configuration is resolved, so resolving it again for the
same build changes nothing (`resolve_base`): every key that is set has its value already, and the
URL that was made absolute is read as it is.
-/

namespace HubRules

open Outcome

/-! ## Setting keys again -/

namespace Members

variable {members : Members} {name : String}

theorem set_eq_self {value : Json} (h : members.get? name = some value) :
    members.set name value = members := by
  induction members with
  | nil => cases h
  | cons first rest ih =>
    obtain ⟨key, old⟩ := first
    unfold get? at h
    rw [List.lookup_cons] at h
    unfold set
    by_cases hkey : key = name
    · rw [beq_iff_eq.2 hkey.symm] at h
      rw [if_pos (beq_iff_eq.2 hkey), Option.some.inj h]
    · rw [beq_eq_false_iff_ne.2 (Ne.symm hkey)] at h
      rw [if_neg (by simpa using hkey), ih h]

theorem set_set (members : Members) (name : String) (first second : Json) :
    (members.set name first).set name second = members.set name second := by
  induction members with
  | nil => simp [set]
  | cons member rest ih =>
    obtain ⟨key, old⟩ := member
    by_cases hkey : key = name <;> simp [set, hkey, ih]

end Members

namespace Configuration

variable {config : Configuration}

theorem set_eq_self {key : String} {value : Json} (h : config.get? key = some value) :
    config.set key value = config :=
  congrArg Configuration.mk (Members.set_eq_self h)

theorem set_set (config : Configuration) (key : String) (first second : Json) :
    (config.set key first).set key second = config.set key second :=
  congrArg Configuration.mk (Members.set_set config.members key first second)

/-! ## Overrides that are there -/

/-- A configuration that has the overrides of a test environment. -/
structure IsForTest (config : Configuration) : Prop where
  address : ∃ server base url, config.text "visualization_server" = .ok server
    ∧ Url.parse ("http://" ++ server).toList = .ok base ∧ base.join url.toText = .ok url
    ∧ config.get? "base_url" = some (.string ("http://" ++ server))
    ∧ config.get? "visualization_url" = some (.string (String.ofList url.toText))
  direct : config.get? "jenkins_direct" = some (.string "")
  share : config.get? "files_share_id" = some (.string "test")
  port : config.get? "proxy_port_in_redirect" = some (.bool false)
  control : (config.textOrEmpty "control_host").isEmpty = false

def IsForProduction (config : Configuration) : Prop :=
  config.isSet "jenkins_direct" → config.get? "swagger_openapi_url" = some (.string "/")
    ∧ config.get? "swagger_validator_url" = some (.string "")

/-- A URL that was resolved against the address of a server stays as it is. -/
theorem join_on_server {server : String} {base url : Url} {path : Text}
    (hbase : Url.parse ("http://" ++ server).toList = .ok base) (hurl : base.join path = .ok url) :
    base.join url.toText = .ok url := by
  have hweb : Url.IsWebScheme base.scheme := by
    rw [String.toList_append] at hbase
    exact .inl (Url.scheme_parse (Url.isNormalScheme_of_web (.inl rfl)) hbase)
  exact Url.join_toText hbase (Url.ne_fileScheme_of_web hweb) (Url.isSpecialScheme_of_web hweb) hurl
    base

theorem forTest_isForTest {result : Configuration} (h : config.forTest = .ok result) :
    result.IsForTest := by
  unfold forTest at h
  obtain ⟨server, hserver, h⟩ := bind_eq_ok_iff.1 h
  obtain ⟨base, hbase, h⟩ := bind_eq_ok_iff.1 h
  obtain ⟨path, hpath, h⟩ := bind_eq_ok_iff.1 h
  obtain ⟨url, hurl, h⟩ := bind_eq_ok_iff.1 h
  dsimp only at h
  generalize hset : ((((config.set "base_url" (.string ("http://" ++ server))).set
    "visualization_url" (.string (String.ofList url.toText))).set "jenkins_direct"
      (.string "")).set "files_share_id" (.string "test")).set "proxy_port_in_redirect"
        (.bool false) = overridden at h
  have hbase := mapError_eq_ok_iff.1 hbase
  have hjoin := join_on_server hbase (mapError_eq_ok_iff.1 hurl)
  -- only the control host may be set besides
  have hoverrides : ∀ final : Configuration,
      (∀ key, key ≠ "control_host" → final.get? key = overridden.get? key) →
      (final.textOrEmpty "control_host").isEmpty = false → final.IsForTest := by
    intro final hsame hcontrol
    refine ⟨⟨server, base, url, ?_, hbase, hjoin, ?_, ?_⟩, ?_, ?_, ?_, hcontrol⟩
    · rw [← hserver]
      refine text_congr ?_
      rw [hsame _ (by decide), ← hset]
      simp [get?_set]
    all_goals
      rw [hsame _ (by decide), ← hset]
      simp [get?_set]
  split at h
  · obtain rfl := Except.ok.inj h
    refine hoverrides _ (fun key hkey => ?_) ?_
    · rw [get?_set, if_neg hkey]
    · unfold textOrEmpty
      rw [get?_set, if_pos rfl]
      decide
  · next hcontrol =>
    obtain rfl := Except.ok.inj h
    exact hoverrides _ (fun _ _ => rfl) (Bool.eq_false_iff.2 hcontrol)

/-- The overrides of a test environment are set to what they are, whatever artifact server was set
before. -/
theorem IsForTest.forTest (h : config.IsForTest) (server : Json) :
    (config.set "jenkins_direct" server).forTest = .ok config := by
  obtain ⟨host, base, url, hserver, hbase, hjoin, haddress, hurl⟩ := h.address
  generalize hstart : config.set "jenkins_direct" server = start
  have hsame : ∀ key, key ≠ "jenkins_direct" → start.get? key = config.get? key := by
    intro key hkey
    rw [← hstart, get?_set, if_neg hkey]
  have hserver' : start.text "visualization_server" = .ok host :=
    (text_congr (hsame _ (by decide))).trans hserver
  have hurl' : start.text "visualization_url" = .ok (String.ofList url.toText) :=
    text_of_get? ((hsame _ (by decide)).trans hurl)
  have hjoin' : base.join (String.ofList url.toText).toList = .ok url := by
    rw [String.toList_ofList]
    exact hjoin
  have hsets : ((((start.set "base_url" (.string ("http://" ++ host))).set "visualization_url"
      (.string (String.ofList url.toText))).set "jenkins_direct" (.string "")).set "files_share_id"
        (.string "test")).set "proxy_port_in_redirect" (.bool false) = config := by
    rw [set_eq_self ((hsame _ (by decide)).trans haddress),
      set_eq_self ((hsame _ (by decide)).trans hurl), ← hstart, set_set, set_eq_self h.direct,
      set_eq_self h.share, set_eq_self h.port]
  unfold Configuration.forTest
  simp only [hserver', hurl', hbase, hjoin', mapError_ok, bind, Except.bind, hsets, h.control]
  rfl

/-! ## Overrides of a build -/

/-- A configuration that has the overrides of the inputs. -/
structure IsOverridden (config : Configuration) (inputs : BuildInputs) : Prop where
  direct : ∀ server ∈ inputs.jenkinsDirect, inputs.environment ≠ some .test →
    config.get? "jenkins_direct" = some (.string server)
  test : inputs.environment = some .test → config.IsForTest
  production : inputs.environment = some .production → config.IsForProduction

theorem forProduction_isForProduction : config.forProduction.IsForProduction := by
  unfold forProduction
  split
  · intro _
    constructor <;> simp [get?_set]
  · next hdirect => exact fun h => absurd h hdirect

theorem IsForProduction.forProduction (h : config.IsForProduction) :
    config.forProduction = config := by
  unfold Configuration.forProduction
  split
  · next hdirect =>
    obtain ⟨hdocument, hvalidator⟩ := h hdirect
    rw [set_eq_self hdocument, set_eq_self hvalidator]
  · rfl

theorem get?_forProduction {key : String} (h : key ≠ "swagger_openapi_url")
    (h' : key ≠ "swagger_validator_url") : config.forProduction.get? key = config.get? key := by
  unfold forProduction
  split
  · rw [get?_set, if_neg h', get?_set, if_neg h]
  · rfl

/-- The configuration with the artifact server of the inputs. -/
def withServer (config : Configuration) (inputs : BuildInputs) : Configuration :=
  inputs.jenkinsDirect.elim config fun server => config.set "jenkins_direct" (.string server)

/-- The artifact server is set first, and then what the environment needs. -/
theorem applyInputs_eq (config : Configuration) (inputs : BuildInputs) :
    config.applyInputs inputs = match inputs.environment with
      | some .test => (config.withServer inputs).forTest
      | some .production => .ok (config.withServer inputs).forProduction
      | _ => .ok (config.withServer inputs) := by
  unfold applyInputs withServer
  cases inputs.jenkinsDirect <;> rfl

theorem get?_withServer {inputs : BuildInputs} {server : String}
    (h : server ∈ inputs.jenkinsDirect) :
    (config.withServer inputs).get? "jenkins_direct" = some (.string server) := by
  unfold withServer
  rw [Option.mem_def.1 h, Option.elim_some, get?_set, if_pos rfl]

theorem applyInputs_isOverridden {inputs : BuildInputs} {result : Configuration}
    (h : config.applyInputs inputs = .ok result) : result.IsOverridden inputs := by
  rw [applyInputs_eq] at h
  split at h
  · next henvironment =>
    exact ⟨fun _ _ hne => absurd henvironment hne, fun _ => forTest_isForTest h,
      fun hother => absurd (henvironment.symm.trans hother) (by decide)⟩
  · next henvironment =>
    obtain rfl := Except.ok.inj h
    refine ⟨fun server hserver _ => ?_, fun hother => ?_, fun _ => forProduction_isForProduction⟩
    · rw [get?_forProduction (by decide) (by decide)]
      exact get?_withServer hserver
    · exact absurd (henvironment.symm.trans hother) (by decide)
  · next htest hproduction =>
    obtain rfl := Except.ok.inj h
    exact ⟨fun server hserver _ => get?_withServer hserver, fun heq => absurd heq htest,
      fun heq => absurd heq hproduction⟩

namespace IsOverridden

variable {inputs : BuildInputs}

theorem withServer_eq (h : config.IsOverridden inputs) (hne : inputs.environment ≠ some .test) :
    config.withServer inputs = config := by
  unfold withServer
  cases hserver : inputs.jenkinsDirect with
  | none => rfl
  | some server => exact set_eq_self (h.direct server hserver hne)

theorem applyInputs (h : config.IsOverridden inputs) :
    config.applyInputs inputs = .ok config := by
  rw [applyInputs_eq]
  split
  · next henvironment =>
    have htest := h.test henvironment
    unfold withServer
    cases inputs.jenkinsDirect with
    | none =>
      have hfixed := htest.forTest (.string "")
      rwa [set_eq_self htest.direct] at hfixed
    | some server => exact htest.forTest (.string server)
  · next henvironment =>
    rw [h.withServer_eq (by rw [henvironment]; decide), (h.production henvironment).forProduction]
  · next htest _ => rw [h.withServer_eq htest]

theorem set_engine (h : config.IsOverridden inputs) (value : Json) :
    (config.set "proxy_nginx" value).IsOverridden inputs := by
  have hsame : ∀ key, key ≠ "proxy_nginx" →
      (config.set "proxy_nginx" value).get? key = config.get? key := by
    intro key hkey
    rw [get?_set, if_neg hkey]
  refine ⟨fun server hserver hne => ?_, fun henvironment => ?_, fun henvironment hset => ?_⟩
  · rw [hsame _ (by decide)]
    exact h.direct server hserver hne
  · obtain ⟨⟨host, base, url, hserver, hbase, hjoin, haddress, hurl⟩, hdirect, hshare, hport,
      hcontrol⟩ := h.test henvironment
    refine ⟨⟨host, base, url, ?_, hbase, hjoin, ?_, ?_⟩, ?_, ?_, ?_, ?_⟩
    · rwa [text_congr (hsame _ (by decide))]
    case refine_7 => rwa [textOrEmpty_congr (hsame _ (by decide))]
    all_goals rwa [hsame _ (by decide)]
  · rw [isSet_congr (hsame _ (by decide))] at hset
    rw [hsame _ (by decide), hsame _ (by decide)]
    exact h.production henvironment hset

end IsOverridden

end Configuration

namespace Resolution

theorem engineFor_base (config base : Configuration) (inputs : BuildInputs) :
    (base.set "proxy_nginx" (.bool (config.engineFor inputs == .nginx))).engineFor inputs
      = config.engineFor inputs := by
  have hset : (base.set "proxy_nginx" (.bool (config.engineFor inputs == .nginx))).isSet
      "proxy_nginx" = (config.engineFor inputs == .nginx) := by
    unfold Configuration.isSet
    rw [Configuration.get?_set, if_pos rfl]
    rfl
  have hflag : ∀ engine : Engine, Engine.ofFlag (engine == .nginx) = engine := by
    intro engine
    cases engine <;> rfl
  unfold Configuration.engineFor at hset ⊢
  rw [hset]
  cases inputs.engine with
  | none => exact hflag _
  | some engine => rfl

/-- A configuration that was resolved is resolved already: for the same source and inputs, what
results is the same again, the order of keys included. -/
theorem resolve_base {config : Configuration} {source : String} {inputs : BuildInputs}
    {resolution : Resolution} (h : resolve config source inputs = .ok resolution) :
    resolve resolution.base source inputs = .ok resolution := by
  unfold resolve at h
  obtain ⟨base, hbase, h⟩ := bind_eq_ok_iff.1 h
  obtain rfl := Except.ok.inj h
  have hfixed := ((Configuration.applyInputs_isOverridden hbase).set_engine
    (.bool (config.engineFor inputs == .nginx))).applyInputs
  unfold resolve
  dsimp only
  rw [engineFor_base, hfixed]
  have hset : (base.set "proxy_nginx" (.bool (config.engineFor inputs == .nginx))).set
      "proxy_nginx" (.bool (config.engineFor inputs == .nginx))
      = base.set "proxy_nginx" (.bool (config.engineFor inputs == .nginx)) :=
    Configuration.set_set _ _ _ _
  show Except.ok _ = _
  rw [hset]

/-- The inputs of a build for a test environment that names an artifact server. -/
def testInputs : BuildInputs :=
  { BuildInputs.none with environment := some .test, jenkinsDirect := some "http://ci" }

/-- A configuration with a relative URL, resolved for `testInputs`. -/
def testResolution : Resolution where
  source := "config.json"
  base := ⟨[("visualization_url", .string "http://hub/b"), ("visualization_server", .string "hub"),
    ("jenkins_direct", .string ""), ("base_url", .string "http://hub"),
    ("files_share_id", .string "test"), ("proxy_port_in_redirect", .bool false),
    ("control_host", .string "control.gros.test"), ("proxy_nginx", .bool false)]⟩
  engine := .httpd
  environment := some .test
  displayMode := .remove

theorem resolve_base_test :
    resolve ⟨[("visualization_url", .string "/a/../b"), ("visualization_server", .string "hub")]⟩
        "config.json" testInputs = .ok testResolution
      ∧ resolve testResolution.base "config.json" testInputs = .ok testResolution := by
  have hresolved : resolve
      ⟨[("visualization_url", .string "/a/../b"), ("visualization_server", .string "hub")]⟩
      "config.json" testInputs = .ok testResolution := rfl
  exact ⟨hresolved, resolve_base hresolved⟩

end Resolution

end HubRules
