import HubRules.Template.Error

/-!
# Build errors

Why a step of a build fails: the cause, and what was being done when it arose. The
text names what was being done, from the outside in, and then the cause.
-/

namespace HubRules

/-- What a build was doing. -/
inductive Activity where
  | readingSettings (path : String)
  | readingConfiguration (path : String)
  | checkingConfiguration (path : String)
  | resolvingConfiguration (path : String)
  | readingLocales (path : String)
  | checkingLocales (path : String)
  | parsingLocales
  | readingCatalog (path : String)
  | checkingCatalog (path : String)
  | enriching (id : String)
  | makingMapFolder (path : String)
  | writingMap (path : String)
  | rendering (source : String)
  | makingFolder (path : String)
  | writingSnapshot (path : String)
  | writing (path : String)
  deriving DecidableEq, Repr

def Activity.describe : Activity → String
  | .readingSettings path => s!"Failed to read settings file: {path}"
  | .readingConfiguration path => s!"Failed to read configuration: {path}"
  | .checkingConfiguration path => s!"Invalid configuration: {path}"
  | .resolvingConfiguration path => s!"Could not resolve configuration {path}"
  | .readingLocales path => s!"Failed to read locales: {path}"
  | .checkingLocales path => s!"Invalid locales: {path}"
  | .parsingLocales => "Failed to parse locales JSON"
  | .readingCatalog path => s!"Failed to read catalog: {path}"
  | .checkingCatalog path => s!"Invalid catalog: {path}"
  | .enriching id => s!"Could not enrich visualization '{id}'"
  | .makingMapFolder path => s!"Failed to create map directory: {path}"
  | .writingMap path => s!"Failed to write map {path}"
  | .rendering source => s!"Could not render {source}"
  | .makingFolder path => s!"Failed to create directory: {path}"
  | .writingSnapshot path => s!"Failed to write snapshot {path}"
  | .writing path => s!"Failed to write {path}"

/-- Why a build fails. -/
inductive BuildError where
  | configuration (cause : ConfigError)
  | template (cause : TemplateError)
  | document (cause : Json.Fault)
  | file (cause : FileError)
  | helper (cause : HelperError)
  /-- The settings file is not what it should be. -/
  | settings (path : String)
  | during (activity : Activity) (cause : BuildError)
  deriving DecidableEq, Repr

/-- The kinds of failures that a command tells apart. -/
inductive ErrorClass where
  | io
  | configuration
  | template
  deriving DecidableEq, Repr

namespace BuildError

def message : BuildError → String
  | .configuration cause => cause.message
  | .template cause => cause.message
  | .document cause => cause.message
  | .file cause => cause.message
  | .helper cause => cause.message
  | .settings path => s!"Failed to parse settings file: {path}"
  | .during activity cause => activity.describe ++ ": " ++ cause.message

def errorClass : BuildError → ErrorClass
  | .configuration _ => .configuration
  | .template _ => .template
  | .document _ => .io
  | .file _ => .io
  | .helper (.configuration _) => .configuration
  | .helper _ => .io
  | .settings _ => .io
  | .during _ cause => cause.errorClass

end BuildError

/-- A result with what was being done named in its error. -/
def Activity.run {ε α : Type} (activity : Activity) (wrap : ε → BuildError)
    (result : Except ε α) : Except BuildError α :=
  result.mapError fun cause => .during activity (wrap cause)

end HubRules
