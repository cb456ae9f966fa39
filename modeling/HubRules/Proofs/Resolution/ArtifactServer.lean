import HubRules.Proofs.Resolution.Fixpoint
import HubRules.Resolution
import Mathlib.Data.List.Forall2

/-!
# The direct artifact server is kept private

Two configurations that differ only in what they say of the direct artifact server, and agree on
whether there is one, stay so through the overrides of a build, even if the builds set different
servers (`AlikeOutsideServer.resolve`). The navigation bar cannot tell them apart: they end in
the same error or have the same snapshot (`snapshot_hides_server`).
-/

namespace HubRules

open Outcome

/-- Whether a key says something of the direct artifact server. -/
def IsServerKey (key : String) : Prop := "jenkins_direct".toList <+: key.toList

instance (key : String) : Decidable (IsServerKey key) :=
  inferInstanceAs (Decidable ("jenkins_direct".toList <+: key.toList))

theorem not_isServerKey_of_isPublic {key : String} (h : Snapshot.isPublic key) :
    ¬IsServerKey key := by
  intro hserver
  have hprivate : Snapshot.privateStart.toList.isPrefixOf key.toList :=
    List.isPrefixOf_iff_prefix.2 hserver
  rw [Snapshot.isPublic, hprivate] at h
  simp at h

/-- Two members of one key, with the same value unless it is the artifact server's. -/
def AlikeMember (first second : String × Json) : Prop :=
  first.1 = second.1 ∧ (¬IsServerKey first.1 → first.2 = second.2)

/-- Two inputs that differ at most in the artifact server, which they both set then. -/
structure BuildInputs.AlikeOutsideServer (first second : BuildInputs) : Prop where
  others : second = { first with jenkinsDirect := second.jenkinsDirect }
  server : first.jenkinsDirect = second.jenkinsDirect
    ∨ ∃ a b, first.jenkinsDirect = some a ∧ second.jenkinsDirect = some b ∧ a ≠ "" ∧ b ≠ ""

/-! ## Members -/

namespace Members

variable {first second : Members}

theorem get?_congr_of_alike (h : List.Forall₂ AlikeMember first second) {key : String}
    (hkey : ¬IsServerKey key) : first.get? key = second.get? key := by
  induction h with
  | nil => rfl
  | @cons a b _ _ hmember _ ih =>
    obtain ⟨⟨name, old⟩, ⟨_, old'⟩⟩ := a, b
    obtain ⟨rfl, hvalue⟩ := hmember
    unfold get? at ih ⊢
    rw [List.lookup_cons, List.lookup_cons, ih]
    by_cases hname : key = name
    · subst hname
      rw [show old = old' from hvalue hkey]
    · rw [beq_eq_false_iff_ne.2 hname]

theorem set_alike (h : List.Forall₂ AlikeMember first second) {key : String} {value value' : Json}
    (hvalue : ¬IsServerKey key → value = value') :
    List.Forall₂ AlikeMember (first.set key value) (second.set key value') := by
  induction h with
  | nil => exact .cons ⟨rfl, hvalue⟩ .nil
  | @cons a b _ _ hmember hrest ih =>
    obtain ⟨⟨name, old⟩, ⟨_, old'⟩⟩ := a, b
    obtain ⟨rfl, hold⟩ := hmember
    unfold set
    split
    · next hname =>
      obtain rfl : name = key := by simpa using hname
      exact .cons ⟨rfl, hvalue⟩ hrest
    · exact .cons ⟨rfl, hold⟩ ih

theorem filter_isPublic_congr (h : List.Forall₂ AlikeMember first second) :
    first.filter (fun member => Snapshot.isPublic member.1)
      = second.filter fun member => Snapshot.isPublic member.1 := by
  induction h with
  | nil => rfl
  | @cons a b _ _ hmember _ ih =>
    obtain ⟨⟨name, old⟩, ⟨_, old'⟩⟩ := a, b
    obtain ⟨rfl, hvalue⟩ := hmember
    rw [List.filter_cons, List.filter_cons, ih]
    cases hpublic : Snapshot.isPublic name with
    | false => simp only [Bool.false_eq_true, if_false]
    | true => rw [show old = old' from hvalue (not_isServerKey_of_isPublic hpublic)]

end Members

namespace Configuration

/-- Two configurations with the same keys in the same order that differ at most in the values of
the artifact server's keys. -/
def AlikeOutsideServer (first second : Configuration) : Prop :=
  List.Forall₂ AlikeMember first.members second.members

namespace AlikeOutsideServer

variable {first second : Configuration} (h : first.AlikeOutsideServer second)

include h

theorem get?_eq (key : String) (hkey : ¬IsServerKey key) : first.get? key = second.get? key :=
  Members.get?_congr_of_alike h hkey

theorem set {key : String} {value value' : Json} (hvalue : ¬IsServerKey key → value = value') :
    (first.set key value).AlikeOutsideServer (second.set key value') :=
  Members.set_alike h hvalue

theorem set_same (key : String) (value : Json) :
    (first.set key value).AlikeOutsideServer (second.set key value) :=
  h.set fun _ => rfl

/-- The snapshot says nothing of the artifact server. -/
theorem snapshot_eq (organization : Option String) :
    Snapshot.ofConfiguration first organization = Snapshot.ofConfiguration second organization := by
  have hpublic := Members.filter_isPublic_congr h
  unfold Snapshot.ofConfiguration
  rw [organizations_congr (h.get?_eq "hub_organizations" (by decide))]
  simp only [hpublic]

/-! ## Overrides -/

theorem forTest : SameOutcome AlikeOutsideServer first.forTest second.forTest := by
  unfold Configuration.forTest
  rw [text_congr (h.get?_eq "visualization_server" (by decide)),
    text_congr (h.get?_eq "visualization_url" (by decide))]
  refine .bind_same _ fun server => .bind_same _ fun base => ?_
  refine .bind_same _ fun path => .bind_same _ fun url => ?_
  have hset := ((((h.set_same "base_url" (.string ("http://" ++ server))).set_same
    "visualization_url" (.string (String.ofList url.toText))).set_same "jenkins_direct"
      (.string "")).set_same "files_share_id" (.string "test")).set_same "proxy_port_in_redirect"
        (.bool false)
  dsimp only
  rw [textOrEmpty_congr (hset.get?_eq "control_host" (by decide))]
  split
  · exact .ok (hset.set_same _ _)
  · exact .ok hset

theorem forProduction (hserver : first.isSet "jenkins_direct" = second.isSet "jenkins_direct") :
    first.forProduction.AlikeOutsideServer second.forProduction := by
  unfold Configuration.forProduction
  rw [hserver]
  split
  · exact (h.set_same _ _).set_same _ _
  · exact h

variable {inputs others : BuildInputs} (hinputs : inputs.AlikeOutsideServer others)

include hinputs

theorem withServer : (first.withServer inputs).AlikeOutsideServer (second.withServer others) := by
  unfold Configuration.withServer
  rcases hinputs.server with heq | ⟨a, b, ha, hb, -⟩
  · rw [heq]
    cases others.jenkinsDirect with
    | none => exact h
    | some server => exact h.set_same _ _
  · rw [ha, hb]
    exact h.set fun hkey => absurd List.prefix_rfl hkey

omit h in
theorem isSet_withServer (hserver : first.isSet "jenkins_direct" = second.isSet "jenkins_direct") :
    (first.withServer inputs).isSet "jenkins_direct"
      = (second.withServer others).isSet "jenkins_direct" := by
  have hset : ∀ (config : Configuration) (inputs : BuildInputs) server,
      server ∈ inputs.jenkinsDirect → server ≠ "" →
      (config.withServer inputs).isSet "jenkins_direct" = true := by
    intro config inputs server hmem hne
    rw [isSet, get?_withServer hmem]
    simpa [Json.isTruthy] using hne
  rcases hinputs.server with heq | ⟨a, b, ha, hb, hane, hbne⟩
  · cases hothers : others.jenkinsDirect with
    | none =>
      unfold Configuration.withServer
      rw [heq, hothers]
      exact hserver
    | some server =>
      exact isSet_congr ((get?_withServer (heq.trans hothers)).trans (get?_withServer hothers).symm)
  · rw [hset first inputs a ha hane, hset second others b hb hbne]

theorem applyInputs (hserver : first.isSet "jenkins_direct" = second.isSet "jenkins_direct") :
    SameOutcome AlikeOutsideServer (first.applyInputs inputs) (second.applyInputs others) := by
  have henvironment : others.environment = inputs.environment := by rw [hinputs.others]
  have hwith := h.withServer hinputs
  rw [applyInputs_eq, applyInputs_eq, henvironment]
  split
  · exact hwith.forTest
  · exact .ok (hwith.forProduction (isSet_withServer hinputs hserver))
  · exact .ok hwith

theorem resolve (hserver : first.isSet "jenkins_direct" = second.isSet "jenkins_direct")
    (source source' : String) :
    SameOutcome (fun a b : Resolution => a.base.AlikeOutsideServer b.base)
      (Resolution.resolve first source inputs) (Resolution.resolve second source' others) := by
  have hengine : second.engineFor others = first.engineFor inputs := by
    have hflag := isSet_congr (h.get?_eq "proxy_nginx" (by decide))
    unfold engineFor
    rw [hinputs.others, hflag]
  unfold Resolution.resolve
  rw [hengine]
  refine (h.applyInputs hinputs hserver).bind fun base base' hbase => ?_
  exact .ok (hbase.set_same "proxy_nginx" _)

end AlikeOutsideServer

end Configuration

namespace Snapshot

/-- Builds of two configurations that differ only in what they say of the direct artifact server,
which both have or neither has, end in the same error or have the same snapshot, even if their
inputs set different servers. -/
theorem snapshot_hides_server {first second : Configuration} {inputs others : BuildInputs}
    (h : first.AlikeOutsideServer second)
    (hserver : first.isSet "jenkins_direct" = second.isSet "jenkins_direct")
    (hinputs : inputs.AlikeOutsideServer others) (source source' : String) :
    SameOutcome
      (fun a b => ofConfiguration a.base inputs.organization
        = ofConfiguration b.base others.organization)
      (Resolution.resolve first source inputs) (Resolution.resolve second source' others) := by
  refine (h.resolve hinputs hserver source source').mono fun a b hbase => ?_
  rw [hinputs.others]
  exact hbase.snapshot_eq inputs.organization

def directConfiguration (server : String) : Configuration :=
  ⟨[("hub_url", .string "/$organization"), ("jenkins_direct", .string server),
    ("jenkins_direct_url", .string (server ++ "/$organization"))]⟩

def directInputs (server : String) : BuildInputs :=
  { BuildInputs.none with environment := some .production, jenkinsDirect := some server }

theorem snapshot_hides_server_production :
    SameOutcome
        (fun a b => ofConfiguration a.base .none = ofConfiguration b.base .none)
        (Resolution.resolve (directConfiguration "http://a") "config.json" (directInputs "http://b"))
        (Resolution.resolve (directConfiguration "http://c") "config.json" (directInputs "http://d"))
      ∧ (Resolution.resolve (directConfiguration "http://a") "config.json"
          (directInputs "http://b")).map (fun a => ofConfiguration a.base .none)
        = .ok (.ok (.object [("hub_url", .string "/$organization"),
          ("swagger_openapi_url", .string "/"), ("swagger_validator_url", .string ""),
          ("organization", .string ""),
          ("visualizations", .object [("combined", .array [.string "prediction"])])])) := by
  have halike : (directConfiguration "http://a").AlikeOutsideServer (directConfiguration "http://c") :=
    .cons ⟨rfl, fun _ => rfl⟩ (.cons ⟨rfl, fun h => absurd (by decide) h⟩
      (.cons ⟨rfl, fun h => absurd (by decide) h⟩ .nil))
  have hinputs : (directInputs "http://b").AlikeOutsideServer (directInputs "http://d") :=
    ⟨rfl, .inr ⟨_, _, rfl, rfl, by decide, by decide⟩⟩
  exact ⟨snapshot_hides_server halike (by decide) hinputs _ _, rfl⟩

end Snapshot

end HubRules
