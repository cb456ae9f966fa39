import HubRules.Configuration.Error
import HubRules.FileTree.Basic

/-!
# Failing helpers

A helper turns the text of its section into other text, or fails for one of the
reasons listed here.
-/

namespace HubRules

/-- The form of the arguments that a helper reads. -/
inductive ArgumentForm where
  | proxyRule
  | artifactRule
  | redirectRule
  | jobPath
  | example
  deriving DecidableEq, Repr

def ArgumentForm.describe : ArgumentForm → String
  | .proxyRule => "pattern url [flags]"
  | .artifactRule => "pattern path [flags]"
  | .redirectRule => "pattern path"
  | .jobPath => "job/branch/file"
  | .example => "name:\x7bexample\x7d"

/-- Why a helper fails. -/
inductive HelperError where
  /-- The configuration lacks what the helper needs. -/
  | configuration (cause : ConfigError)
  /-- The text does not have the form of the helper's arguments. -/
  | arguments (form : ArgumentForm) (text : Text)
  | proxyTarget (target : Text) (cause : UrlError)
  | server (host : Text) (cause : UrlError)
  | resolution (rest base : Text) (cause : UrlError)
  | exampleText (name : Text) (cause : Json.Fault)
  | exampleWithoutFile (name : Text)
  | exampleFile (path : String) (cause : FileError)
  | exampleJson (path : String) (cause : Json.Fault)
  /-- A helper of another library fails in its own words. -/
  | rejected (reason : Text)
  deriving DecidableEq, Repr

def HelperError.message : HelperError → String
  | .configuration cause => cause.message
  | .arguments form text => s!"expected '{form.describe}', got '{String.ofList text}'"
  | .proxyTarget target cause => s!"Invalid proxy target '{String.ofList target}': {cause.message}"
  | .server host cause => s!"Invalid server '{String.ofList host}': {cause.message}"
  | .resolution rest base cause =>
    s!"Cannot resolve '{String.ofList rest}' against {String.ofList base}: {cause.message}"
  | .exampleText name cause => s!"Invalid example for {String.ofList name}: {cause.message}"
  | .exampleWithoutFile name => s!"Example {String.ofList name} has no externalValue"
  | .exampleFile path cause => s!"Failed to read example {path}: {cause.message}"
  | .exampleJson path cause => s!"Invalid JSON example {path}: {cause.message}"
  | .rejected reason => String.ofList reason

/-- A helper: the rendered text of its section in, what replaces it out. -/
abbrev Helper := Text → Except HelperError Text

end HubRules
