import HubRules.Api
import HubRules.RenderContext
import HubRules.Settings

/-!
# Projects

A project is a root in a file tree with its settings and inputs. Its steps read and
write the tree. What was written before a step fails stays written.
-/

namespace HubRules

/-- A step of a build: it works on a file tree and gives a result or fails. -/
abbrev Build (α : Type) := ExceptT BuildError (StateM FileTree) α

namespace Build

/-- The result of reading something in the tree. -/
def reading {ε α : Type} (activity : Activity) (wrap : ε → BuildError)
    (read : FileTree → Except ε α) : Build α := do
  liftExcept (activity.run wrap (read (← get)))
where
  liftExcept (result : Except BuildError α) : Build α := ExceptT.mk (pure result)

/-- A result that does not depend on the tree. -/
def ofExcept {ε α : Type} (wrap : ε → BuildError) (result : Except ε α) : Build α :=
  ExceptT.mk (pure (result.mapError wrap))

/-- Changes the tree, unless the system refuses it; then the tree is what it was before, without
the folders that a system may have made until it refused one. -/
def changing (activity : Activity) (change : FileTree → Except FileError FileTree) :
    Build Unit := do
  set (← ofExcept id (activity.run .file (change (← get))))

def write (activity : Activity) (path content : String) : Build Unit :=
  changing activity (·.write path (.text content))

end Build

def templateSource (artifact : String) : String := artifact ++ ".mustache"

/-- A project. -/
structure Project where
  root : String
  settings : Settings
  inputs : BuildInputs

/-- The files that a build wrote. -/
structure BuildReport where
  names : String
  maps : List String
  artifacts : List String
  snapshot : String
  api : Option String

namespace Project

/-- Opens a project at a root. -/
def open_ (tree : FileTree) (root : String) (inputs : BuildInputs) :
    Except BuildError Project := do
  return ⟨root, ← Settings.load tree root, inputs⟩

def path (project : Project) (relative : String) : String := FilePath.join project.root relative

/-- The configuration file: that of the inputs, else that of the settings, and the one
to fall back on where it does not exist. -/
def configurationFile (project : Project) (tree : FileTree) : String :=
  let first := project.inputs.configurationFile.getD project.settings.configuration
  if tree.exists? (project.path first) then first else project.settings.fallbackConfiguration

def resolve (project : Project) : Build Resolution := do
  let source := project.configurationFile (← get)
  let path := project.path source
  let text ← Build.reading (.readingConfiguration path) .file (·.readText path)
  let config ← Build.ofExcept id
    ((Activity.checkingConfiguration path).run .configuration (Configuration.read text.toList))
  Build.ofExcept id ((Activity.resolvingConfiguration path).run .configuration
    (Resolution.resolve config source project.inputs))

/-- Reads the texts of the default locale; there need not be any. -/
def messages (project : Project) : Build Messages := do
  let path := project.path project.settings.locales
  if !(← get).exists? path then return .empty
  let text ← Build.reading (.readingLocales path) .file (·.readText path)
  Build.ofExcept id ((Activity.checkingLocales path).run id
    (Activity.parsingLocales.run .document (Messages.read text.toList)))

/-- Reads the catalog and computes what is shown of it. -/
def catalog (project : Project) (resolution : Resolution) : Build CatalogView := do
  let messages ← project.messages
  let path := project.path project.settings.catalog
  let text ← Build.reading (.readingCatalog path) .file (·.readText path)
  let catalog ← Build.ofExcept id
    ((Activity.checkingCatalog path).run .document (Catalog.read text.toList))
  Build.ofExcept id
    (CatalogView.ofCatalog resolution.display messages project.inputs.names catalog)

def templates (project : Project) (resolution : Resolution) : List String :=
  project.settings.templatesFor resolution.engine

def context (project : Project) (resolution : Resolution) (catalog : CatalogView) :
    Build RenderContext :=
  Build.ofExcept .configuration (RenderContext.assemble resolution catalog project.inputs)

/-- Writes the names of the visualizations that are listed. -/
def writeNames (project : Project) (catalog : CatalogView) : Build String := do
  let path := project.path project.settings.names
  Build.write (.writing path) path (" ".intercalate catalog.names)
  return path

def writeMapsInto (folder : String) : List LookupMap → Build (List String)
  | [] => return []
  | map :: maps => do
    let path := FilePath.join folder map.fileName
    Build.write (.writingMap path) path map.content
    return path :: (← writeMapsInto folder maps)

/-- Writes the lookup maps, if the engine reads any. -/
def writeMaps (project : Project) (resolution : Resolution) : Build (List String) := do
  if !resolution.engine.usesMapFiles then return []
  let maps ← Build.ofExcept .configuration resolution.base.lookupMaps
  let folder := project.path project.settings.maps
  if !maps.isEmpty then Build.changing (.makingMapFolder folder) (·.makeFolders folder)
  writeMapsInto folder maps

def readSource (path : String) (tree : FileTree) : Except BuildError Text :=
  match tree.readText path with
  | .ok text => .ok text.toList
  | .error cause => .error (.template (.unreadable path cause))

def render (project : Project) (context : RenderContext) (artifact : String) :
    Build String := do
  let source := templateSource artifact
  Build.reading (.rendering source) id fun tree => do
    let text ← readSource (project.path source) tree
    let rendered ← (context.render project.settings.strict text).mapError .template
    return String.ofList rendered

/-- Renders the template of an artifact and writes the artifact. -/
def compile (project : Project) (context : RenderContext) (artifact : String) :
    Build String := do
  let rendered ← project.render context artifact
  let path := project.path artifact
  if let some folder := FilePath.parent? path then
    Build.changing (.makingFolder folder) (·.makeFolders folder)
  Build.write (.writing path) path rendered
  return path

/-- Renders and writes artifacts in order, up to the first that fails. -/
def compileAll (project : Project) (context : RenderContext) :
    List String → Build (List String)
  | [] => return []
  | artifact :: artifacts => do
    let path ← project.compile context artifact
    return path :: (← project.compileAll context artifacts)

def writeSnapshot (project : Project) (resolution : Resolution) : Build String := do
  let snapshot ← Build.ofExcept .configuration
    (Snapshot.ofConfiguration resolution.base project.inputs.organization)
  let path := project.path project.settings.snapshot
  Build.write (.writingSnapshot path) path snapshot.toString
  return path

/-- Renders and writes the document of the interface. -/
def writeApi (project : Project) (resolution : Resolution) : Build String := do
  let source := templateSource project.settings.api
  let rendered ← Build.reading (.rendering source) id fun tree => do
    let text ← readSource (project.path source) tree
    let values ← (Api.values resolution).mapError .configuration
    let helpers := Api.helpers tree project.root
    (Template.renderText text values helpers project.settings.strict).mapError .template
  let path := project.path project.settings.api
  Build.write (.writing path) path (String.ofList rendered)
  return path

def build (project : Project) : Build BuildReport := do
  let resolution ← project.resolve
  let catalog ← project.catalog resolution
  let names ← project.writeNames catalog
  let maps ← project.writeMaps resolution
  let context ← project.context resolution catalog
  let artifacts ← project.compileAll context (project.templates resolution)
  let snapshot ← project.writeSnapshot resolution
  let api ← if project.settings.rendersApi then some <$> project.writeApi resolution
    else pure none
  return ⟨names, maps, artifacts, snapshot, api⟩

end Project

end HubRules
