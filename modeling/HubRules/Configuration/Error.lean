import HubRules.Engine
import HubRules.Json.Reader
import HubRules.Text.Unicode
import HubRules.Url.Host

/-!
# Configuration errors

What can be wrong with a configuration or with the names that select how it is
built, and the reading of those names.
-/

namespace HubRules

/-- What a configuration key should have held. -/
inductive Expected where
  | text
  | object
  | numericId
  | organizations
  deriving DecidableEq, Repr

def Expected.describe : Expected → String
  | .text => "a string"
  | .object => "an object"
  | .numericId => "a numeric id"
  | .organizations => "a list of organization objects"

/-- What is wrong with a configuration. -/
inductive ConfigError where
  | missingKey (key : String)
  | wrongType (key : String) (expected : Expected)
  | emptyHost (key : String)
  | invalidUrl (key : String) (cause : UrlError)
  | invalidMapping (group : RoutingGroup) (entry : String) (cause : Mismatch)
  | unknownEngine (name : String)
  | unknownEnvironment (name : String)
  | unknownGroup (name : String)
  | malformed (cause : Json.Fault)
  | notAnObject
  deriving DecidableEq, Repr

def ConfigError.message : ConfigError → String
  | .missingKey key => s!"Missing configuration key '{key}'"
  | .wrongType key expected => s!"Configuration key '{key}' must be {expected.describe}"
  | .emptyHost key => s!"Host key '{key}' is empty"
  | .invalidUrl key cause => s!"Configuration key '{key}' is not a valid URL: {cause.message}"
  | .invalidMapping group entry cause =>
    s!"Invalid hub_mapping entry {group.name}.{entry}: {cause.message}"
  | .unknownEngine name => s!"Unknown proxy engine '{name}' (expected nginx or httpd)"
  | .unknownEnvironment name =>
    s!"Unknown environment '{name}' (expected test, development or production)"
  | .unknownGroup name =>
    s!"Unknown routing group '{name}' (expected hub, visualization or prediction)"
  | .malformed cause => s!"Configuration is not valid JSON: {cause.message}"
  | .notAnObject => "Configuration must be a JSON object"

/-- Reads the name of an engine; case and surrounding blanks do not matter. -/
def Engine.read (text : Text) : Except ConfigError Engine :=
  let name := String.ofList (Text.lowerAscii (Text.trim text))
  match Engine.ofName? name with
  | some engine => .ok engine
  | none => .error (.unknownEngine name)

/-- Reads the name of an environment; surrounding blanks do not matter. -/
def Environment.read (text : Text) : Except ConfigError Environment :=
  let name := String.ofList (Text.trim text)
  match Environment.ofName? name with
  | some environment => .ok environment
  | none => .error (.unknownEnvironment name)

/-- Reads the name of a routing group; surrounding blanks do not matter. -/
def RoutingGroup.read (text : Text) : Except ConfigError RoutingGroup :=
  let name := String.ofList (Text.trim text)
  match RoutingGroup.ofName? name with
  | some group => .ok group
  | none => .error (.unknownGroup name)

end HubRules
