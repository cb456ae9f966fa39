import HubRules.Proofs.Helper.UrlKeys
import HubRules.Proofs.Outcome
import HubRules.Resolution

/-!
# Placeholders in a snapshot

A snapshot keeps the placeholders of the URLs it takes over. It makes no difference whether they
are replaced in the snapshot or in the configuration that it is taken of (`snapshot_binds_late`):
taking a snapshot drops keys and sets two that are not named as URLs, and nothing of this depends
on what the URLs hold.
-/

namespace HubRules

open Outcome

namespace Configuration

variable (config : Configuration) (mode : Placeholder)

theorem resolveUrls_set (key : String) (value : Json) :
    (config.set key value).resolveUrls mode
      = (config.resolveUrls mode).set key (mode.resolveValue key value) := by
  obtain ⟨members⟩ := config
  apply congrArg Configuration.mk
  dsimp only [set, resolveUrls]
  induction members with
  | nil => rfl
  | cons member rest ih =>
    obtain ⟨name, old⟩ := member
    by_cases hname : name = key
    · subst hname
      simp [Members.set]
    · simp [Members.set, hname, ih]

theorem resolveUrls_set_of_not_url {key : String} (hkey : isUrlKey key = false) (value : Json) :
    (config.set key value).resolveUrls mode = (config.resolveUrls mode).set key value := by
  rw [resolveUrls_set, Placeholder.resolveValue_of_not_url hkey]

theorem organizations_resolveUrls :
    (config.resolveUrls mode).organizations = config.organizations :=
  organizations_congr (config.resolveUrls_sameOutsideUrls mode "hub_organizations" (by decide))

end Configuration

namespace Snapshot

variable (base : Configuration) (organization : Option String) (mode : Placeholder)

def urls (base : Configuration) : Configuration :=
  ⟨base.members.filter fun (key, _) => isPublic key⟩

/-- The snapshot of a base with these organizations, as a configuration. -/
def configuration (base : Configuration) (organization : Option String)
    (organizations : List Organization) : Configuration :=
  ((urls base).set "organization" (.string (organization.getD ""))).set "visualizations"
    (.object (visualizations organizations))

theorem ofConfiguration_eq : ofConfiguration base organization =
    base.organizations >>= fun organizations =>
      pure (configuration base organization organizations).toJson := rfl

theorem urls_resolveUrls : urls (base.resolveUrls mode) = (urls base).resolveUrls mode := by
  apply congrArg Configuration.mk
  dsimp only [Configuration.resolveUrls, urls]
  rw [List.filter_map]
  rfl

theorem configuration_resolveUrls (organizations : List Organization) :
    configuration (base.resolveUrls mode) organization organizations
      = (configuration base organization organizations).resolveUrls mode := by
  unfold configuration
  rw [urls_resolveUrls, Configuration.resolveUrls_set_of_not_url _ _ (by decide),
    Configuration.resolveUrls_set_of_not_url _ _ (by decide)]

/-- The snapshot of a configuration whose placeholders were replaced is the snapshot of the
configuration as it was with the placeholders replaced there, the order of keys included; and if
one of them cannot be taken then neither can the other, for the same reason. -/
theorem snapshot_binds_late :
    SameOutcome
      (fun late early => ∃ taken : Configuration,
        late = taken.toJson ∧ early = (taken.resolveUrls mode).toJson)
      (ofConfiguration base organization)
      (ofConfiguration (base.resolveUrls mode) organization) := by
  rw [ofConfiguration_eq, ofConfiguration_eq, Configuration.organizations_resolveUrls]
  apply SameOutcome.bind_same
  intro organizations
  refine .ok ⟨configuration base organization organizations, rfl, ?_⟩
  rw [configuration_resolveUrls]

end Snapshot

end HubRules
