import HubRules.BuildInputs
import HubRules.Configuration.Organization
import HubRules.Placeholder
import HubRules.Url.Parser

/-!
# Resolved configurations

A configuration with the overrides of its environment, and what becomes of its
placeholders for those who display it and for the proxy.

The navigation bar learns of a snapshot: the URLs, whose placeholders stay in place because the
bar fills them in itself, and which visualizations every organization has. The direct artifact
server is kept private.
-/

namespace HubRules

/-- What stands for the placeholder in URLs that are displayed. -/
def BuildInputs.displayMode (inputs : BuildInputs) : Placeholder :=
  if inputs.combined then .combined
  else match inputs.organization with
    | some organization => .organization organization.toList
    | .none => .remove

namespace Configuration

/-- The host that serves control endpoints where a test environment has none. -/
def testControlHost : String := "control.gros.test"

/-- The overrides of a test environment: absolute URLs, job artifacts through the
proxy, no port numbers in redirects, and a control host. -/
def forTest (config : Configuration) : Except ConfigError Configuration := do
  let server ← config.text "visualization_server"
  let address := "http://" ++ server
  let base ← (Url.parse address.toList).mapError (.invalidUrl "visualization_server")
  let path ← config.text "visualization_url"
  let url ← (base.join path.toList).mapError (.invalidUrl "visualization_url")
  let config := config
    |>.set "base_url" (.string address)
    |>.set "visualization_url" (.string (String.ofList url.toText))
    |>.set "jenkins_direct" (.string "")
    |>.set "files_share_id" (.string "test")
    |>.set "proxy_port_in_redirect" (.bool false)
  return if (config.textOrEmpty "control_host").isEmpty then
    config.set "control_host" (.string testControlHost)
  else config

/-- The overrides of a production environment: with a direct artifact server, the
document of the interface lies at the root and is not validated elsewhere. -/
def forProduction (config : Configuration) : Configuration :=
  if config.isSet "jenkins_direct" then
    config |>.set "swagger_openapi_url" (.string "/") |>.set "swagger_validator_url" (.string "")
  else config

/-- The configuration with the overrides of the inputs. -/
def applyInputs (config : Configuration) (inputs : BuildInputs) :
    Except ConfigError Configuration :=
  let config := match inputs.jenkinsDirect with
    | some server => config.set "jenkins_direct" (.string server)
    | .none => config
  match inputs.environment with
  | some .test => config.forTest
  | some .production => .ok config.forProduction
  | _ => .ok config

/-- The engine of a build: that of the inputs, else that of the configuration. -/
def engineFor (config : Configuration) (inputs : BuildInputs) : Engine :=
  inputs.engine.getD (.ofFlag (config.isSet "proxy_nginx"))

end Configuration

/-- A configuration for one build. -/
structure Resolution where
  /-- The file that the configuration is from. -/
  source : String
  /-- The configuration with its overrides, its placeholders intact. -/
  base : Configuration
  engine : Engine
  environment : Option Environment
  /-- What stands for the placeholder in URLs that are displayed. -/
  displayMode : Placeholder

namespace Resolution

/-- Resolves a configuration against the inputs of a build. -/
def resolve (config : Configuration) (source : String) (inputs : BuildInputs) :
    Except ConfigError Resolution := do
  let engine := config.engineFor inputs
  let base ← config.applyInputs inputs
  return {
    source
    base := base.set "proxy_nginx" (.bool (engine == .nginx))
    engine
    environment := inputs.environment
    displayMode := inputs.displayMode }

def display (resolution : Resolution) : Configuration :=
  resolution.base.resolveUrls resolution.displayMode

/-- The configuration as the proxy sees it: without placeholders. -/
def proxy (resolution : Resolution) : Configuration := resolution.base.resolveUrls .remove

end Resolution

/-! ## Snapshots -/

namespace Snapshot

/-- The start of the keys that are kept private. -/
def privateStart : String := "jenkins_direct"

def isPublic (key : String) : Bool :=
  Configuration.isUrlKey key && !privateStart.toList.isPrefixOf key.toList

/-- The visualizations of every organization, and of all of them combined. -/
def visualizations (organizations : List Organization) : Members :=
  Members.set
    (Members.setAll [] (organizations.map fun organization =>
      (organization.id, .ofStrings organization.visualizations)))
    Placeholder.combinedId (.ofStrings ["prediction"])

/-- The snapshot of a configuration with its overrides. -/
def ofConfiguration (base : Configuration) (organization : Option String) :
    Except ConfigError Json := do
  let organizations ← base.organizations
  let urls : Members := base.members.filter fun (key, _) => isPublic key
  return .object (urls
    |>.set "organization" (.string (organization.getD ""))
    |>.set "visualizations" (.object (visualizations organizations)))

end Snapshot

end HubRules
