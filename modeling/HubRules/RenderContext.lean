import HubRules.CatalogView
import HubRules.Configuration.Organization
import HubRules.Helper.Registry
import HubRules.Reference
import HubRules.Resolution

/-!
# Render contexts

The values and helpers that all templates of a build share: the catalog, then the
configuration as the proxy sees it, then values that are derived from both. Of two
values of one name the later one counts.
-/

namespace HubRules

/-- What the templates of a build are rendered with. -/
structure RenderContext where
  values : Members
  helpers : Helpers
  engine : Engine

namespace RenderContext

/-- The visualization without which there are no prediction organizations. -/
def predictionSite : String := "prediction-site"

/-- Where repositories lie unless the inputs say otherwise. -/
def defaultRepoRoot : String := "repos"

/-- A value of a configuration, `null` where there is none. -/
def valueOrNull (config : Configuration) (key : String) : Json := (config.get? key).getD .null

/-- The redirect to a hub, with references for the engine. -/
def hubRedirect (base : Configuration) (engine : Engine) : Except ConfigError String := do
  let redirect ← base.text "hub_redirect"
  return match engine with
    | .nginx => redirect
    | .httpd => String.ofList (Reference.toHttpdVariables redirect.toList)

/-- Where the branches of predictions are listed. -/
def branchList (base : Configuration) : String :=
  if base.isSet "jenkins_direct" then "/branches.json"
  else base.textOrEmpty "jenkins_path"
    ++ "/job/create-prediction/api/json?tree=jobs[name,lastStableBuild["
    ++ "description,duration,timestamp]]"

/-- The directives for the branch of a routing group. -/
def branchDirectives (base : Configuration) (engine : Engine) (key : String) : Json :=
  match engine with
  | .nginx => valueOrNull base key
  | .httpd => .string "RewriteBase /"

/-- The values that are derived from the configuration, the catalog and the inputs. An id of a
user or a group that the inputs do not give is `0` here; a system puts that of the running
process there. -/
def derived (resolution : Resolution) (catalog : CatalogView) (inputs : BuildInputs) :
    Except ConfigError Members := do
  let base := resolution.base
  let engine := resolution.engine
  let (controlName, controlDomain) ← base.hostParts "control_host"
  let (_, domain) ← base.hostParts "visualization_server"
  let (_, internalDomain) ← base.hostParts "jenkins_host"
  let organizations ← base.organizations
  let hubPattern ← base.text "hub_regex"
  let redirect ← hubRedirect base engine
  let predictionOrganizations :=
    if catalog.names.contains predictionSite then organizations.map Organization.toJson else []
  return [
    ("config_file", .string resolution.source),
    ("control_hostname", .string controlName),
    ("control_domain", .string controlDomain),
    ("domain", .string domain),
    ("internal_domain", .string internalDomain),
    ("repo_root", .string (inputs.repoRoot.getD defaultRepoRoot)),
    ("server_certificate",
      (inputs.serverCertificate.map Json.string).getD (valueOrNull base "auth_cert")),
    ("branch_name", .string (inputs.branchName.getD "")),
    ("user_id", .ofNat (inputs.userId.getD 0)),
    ("group_id", .ofNat (inputs.groupId.getD 0)),
    ("visualization_names", .ofStrings catalog.proxiedNames),
    ("prediction_organizations", .array predictionOrganizations),
    ("visualization_organizations", .array (organizations.map (·.site.getD .null))),
    ("hub_rewrite", .string (String.ofList (Pattern.stripNamedGroups hubPattern.toList))),
    ("hub_redirect", .string redirect),
    ("jenkins_branches", .string (branchList base)),
    ("error_log", .string (LogLevel.errors engine resolution.environment)),
    ("rewrite_log", .string (LogLevel.rules engine resolution.environment)),
    ("hub_branch", branchDirectives base engine "hub_branch"),
    ("visualization_branch", branchDirectives base engine "visualization_branch"),
    ("prediction_branch", branchDirectives base engine "prediction_branch")]

def assemble (resolution : Resolution) (catalog : CatalogView) (inputs : BuildInputs) :
    Except ConfigError RenderContext := do
  let derived ← derived resolution catalog inputs
  return {
    values := (Members.setAll catalog.members resolution.proxy.members).setAll derived
    helpers := (HelperScope.mk resolution.base resolution.engine).helpers
    engine := resolution.engine }

def render (context : RenderContext) (strict : Bool) (source : Text) :
    Except TemplateError Text :=
  Template.renderText source (.object context.values) context.helpers strict

end RenderContext

end HubRules
