import HubRules.Configuration.Basic

/-!
# Organizations

The organizations that a hub serves, as the configuration lists them.
-/

namespace HubRules

/-- An organization of the hub. -/
structure Organization where
  id : String
  visualizations : List String
  /-- The branch or host of the organization's hub. -/
  site : Option Json
  /-- Further fields, for templates. -/
  extra : Members

namespace Organization

def readTexts (value : Json) : Option (List String) :=
  match value with
  | .array items => items.mapM Json.string?
  | _ => none

def fieldNames : List String := ["organization", "visualizations", "visualization-site"]

def read (value : Json) : Option Organization := do
  let members ← value.members?
  let id ← (← members.get? "organization").string?
  let visualizations ← ((members.get? "visualizations").map readTexts).getD (some [])
  let site := match members.get? "visualization-site" with
    | some .null => none
    | found => found
  return ⟨id, visualizations, site, members.filter fun member => !fieldNames.contains member.1⟩

def toJson (organization : Organization) : Json :=
  .object ([("organization", .string organization.id),
      ("visualizations", .ofStrings organization.visualizations)]
    ++ (organization.site.map fun site => ("visualization-site", site)).toList
    ++ organization.extra)

end Organization

def Configuration.organizations (config : Configuration) :
    Except ConfigError (List Organization) :=
  match config.get? "hub_organizations" with
  | none | some .null => .ok []
  | some (.array items) =>
    match items.mapM Organization.read with
    | some organizations => .ok organizations
    | none => .error (.wrongType "hub_organizations" .organizations)
  | some _ => .error (.wrongType "hub_organizations" .organizations)

theorem Configuration.organizations_congr {config other : Configuration}
    (h : config.get? "hub_organizations" = other.get? "hub_organizations") :
    config.organizations = other.organizations := by
  rw [organizations, organizations, h]

end HubRules
