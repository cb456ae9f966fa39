import HubRules.Command.Arguments
import HubRules.Project

/-!
# Running commands

What a command prints, and how the program ends. Every command opens the project at
its root and works on a file tree.
-/

namespace HubRules

/-- Why a command fails. -/
inductive CommandError where
  /-- The command line is not understood. -/
  | usage
  | emptyTemplate
  | missingRoot (path : String)
  | build (cause : BuildError)
  deriving DecidableEq, Repr

namespace CommandError

/-- The text of an error; a command line that is not understood is answered with how
the program is called. -/
def message : CommandError → String
  | .usage => "Usage: vizhub [-v] <build|render|maps|names|config> [OPTIONS]"
  | .emptyTemplate => "Template name must not be empty"
  | .missingRoot path => s!"Project root does not exist: {path}"
  | .build cause => cause.message

def exitCode : CommandError → Nat
  | .usage => 1
  | .emptyTemplate => 1
  | .missingRoot _ => 1
  | .build cause =>
    match cause.errorClass with
    | .io => 2
    | .configuration => 3
    | .template => 4

end CommandError

/-- A command at work on a file tree: it prints a text or fails. -/
abbrev Command := ExceptT CommandError (StateM FileTree) String

namespace Command

def step {α : Type} (build : Build α) : ExceptT CommandError (StateM FileTree) α :=
  ExceptT.mk do
    return (← build.run).mapError .build

/-- The inputs of a command: those of the environment with the options on top. -/
def inputs (options : ProjectOptions) (lookup : String → Option String) :
    Except ConfigError BuildInputs := do
  let inputs ← BuildInputs.read lookup
  return { inputs with
    environment := options.environment.orElse fun _ => inputs.environment
    engine := options.engine.orElse fun _ => inputs.engine
    organization := options.organization.orElse fun _ => inputs.organization
    combined := options.combined || inputs.combined }

def openProject (options : ProjectOptions) (lookup : String → Option String) :
    ExceptT CommandError (StateM FileTree) Project := do
  if !(← get).isFolder options.root then throw (.missingRoot options.root)
  let inputs ← step (Build.ofExcept .configuration (inputs options lookup))
  let project ← step (Build.ofExcept id (Project.open_ (← get) options.root inputs))
  let strict := options.strict || project.settings.strict
  return { project with settings := { project.settings with strict } }

def unlines (lines : List String) : String := String.join (lines.map (· ++ "\n"))

def wrote (path : String) : String := "✓ Wrote " ++ path

def rendered (path : String) : String := "✓ Rendered " ++ path

def build (project : Project) : Command := do
  let report ← step project.build
  return unlines (wrote report.names :: report.maps.map wrote
    ++ report.artifacts.map rendered ++ [wrote report.snapshot]
    ++ (report.api.map rendered).toList)

def render (project : Project) (artifact : String) : Command := do
  let resolution ← step project.resolve
  let catalog ← step (project.catalog resolution)
  let context ← step (project.context resolution catalog)
  step (project.render context artifact)

def maps (project : Project) : Command := do
  let resolution ← step project.resolve
  let written ← step (project.writeMaps resolution)
  if written.isEmpty then
    return unlines [s!"No map files needed for {resolution.engine.name}"]
  return unlines (written.map wrote)

def names (project : Project) (proxied : Bool) : Command := do
  let resolution ← step project.resolve
  let catalog ← step (project.catalog resolution)
  let names := if proxied then catalog.proxiedNames else catalog.names
  return unlines [" ".intercalate names]

def config (project : Project) (form : PrintedForm) : Command := do
  let resolution ← step project.resolve
  let document ← match form with
    | .display => pure resolution.display.toJson
    | .proxy => pure resolution.proxy.toJson
    | .api => step (Build.ofExcept .configuration (Api.values resolution))
  return unlines [document.toIndentedString]

/-- The name of the artifact of a template: the name without the ending of templates,
however often it stands there. -/
def artifactName (template : String) : String :=
  let rec strip : Nat → Text → Text
    | 0, name => name
    | limit + 1, name =>
      match Text.dropEnding? ".mustache".toList name with
      | some shorter => strip limit shorter
      | none => name
  String.ofList (strip template.length template.toList)

def run (action : Action) (options : ProjectOptions) (lookup : String → Option String) :
    Command := do
  match action with
  | .build => build (← openProject options lookup)
  | .render template =>
    let artifact := artifactName template
    if artifact.isEmpty then throw .emptyTemplate
    render (← openProject options lookup) artifact
  | .maps => maps (← openProject options lookup)
  | .names proxied => names (← openProject options lookup) proxied
  | .config form => config (← openProject options lookup) form

def helpText : String := unlines [
  "Compiles the configuration of a visualization hub into proxy rules.", "",
  "Usage: vizhub [-v] <COMMAND> [OPTIONS]", "",
  "Commands:",
  "  build   Write names, maps, rules, the snapshot and the interface document",
  "  render  Print one rendered template",
  "  maps    Write the lookup maps only",
  "  names   Print the names of visualizations",
  "  config  Print the configuration", "",
  "Options of all commands:",
  "  --root DIR         The root of the project",
  "  --env NAME         test, development or production",
  "  --proxy ENGINE     nginx or httpd",
  "  --organization ID  The organization of displayed URLs",
  "  --combined         Displayed URLs lead to all organizations",
  "  --strict           A variable without a value is an error"]

def versionText : String := unlines ["vizhub 0.4.0"]

def runArguments (arguments : List String) (lookup : String → Option String) : Command :=
  match CommandLine.ofArguments? arguments with
  | none => throw .usage
  | some .help => return helpText
  | some .version => return versionText
  | some (.run action options) => run action options lookup

end Command

end HubRules
