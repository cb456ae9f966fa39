import HubRules.BuildError
import HubRules.Toml.Parser

/-!
# Build settings

Where a build finds its inputs and puts its outputs, and which templates it renders.
A settings file in the root may change any of them; what it does not mention stays
as it is.
-/

namespace HubRules

/-- Settings of a build. Paths are relative to its root. -/
structure Settings where
  configuration : String := "config.json"
  /-- The configuration to use where the other one does not exist. -/
  fallbackConfiguration : String := "lib/config.json"
  catalog : String := "visualizations.json"
  locales : String := "lib/locales.json"
  /-- The folder of lookup maps. -/
  maps : String := "httpd/maps"
  /-- The file that lists the names of visualizations. -/
  names : String := "visualization_names.txt"
  snapshot : String := "config-alias.json"
  /-- The document of the interface; its template has this name and an ending. -/
  api : String := "openapi.json"
  /-- The artifacts to render, in order; their names may mention the engine. -/
  templates : List String := [
    "\x7bproxy\x7d.conf", "\x7bproxy\x7d/blog.conf", "\x7bproxy\x7d/discussion.conf",
    "\x7bproxy\x7d/prediction.conf", "\x7bproxy\x7d/visualization.conf",
    "\x7bproxy\x7d/websocket.conf", "caddy/docker-compose.yml", "caddy/ws", "caddy/www",
    "test/docker-compose.yml", "swagger/docker-compose.yml"]
  /-- Whether a variable without a value is an error. -/
  strict : Bool := false
  /-- Whether the document of the interface is rendered. -/
  rendersApi : Bool := true
  deriving DecidableEq, Repr

namespace Settings

def readText : Toml → Option String
  | .string text => some text
  | _ => none

def readFlag : Toml → Option Bool
  | .boolean value => some value
  | _ => none

def readTexts (value : Toml) : Option (List String) := do
  (← value.listItems?).mapM readText

/-- The settings with one of the paths changed. -/
def setPath (settings : Settings) (name : String) (value : Toml) : Option Settings := do
  match name with
  | "configuration" => return { settings with configuration := ← readText value }
  | "fallback_configuration" => return { settings with fallbackConfiguration := ← readText value }
  | "catalog" => return { settings with catalog := ← readText value }
  | "locales" => return { settings with locales := ← readText value }
  | "maps_dir" => return { settings with maps := ← readText value }
  | "names_file" => return { settings with names := ← readText value }
  | "snapshot" => return { settings with snapshot := ← readText value }
  | "openapi" => return { settings with api := ← readText value }
  | _ => return settings

/-- The settings with one of the choices about rendering changed. -/
def setRendering (settings : Settings) (name : String) (value : Toml) : Option Settings := do
  match name with
  | "templates" => return { settings with templates := ← readTexts value }
  | "strict" => return { settings with strict := ← readFlag value }
  | "openapi" => return { settings with rendersApi := ← readFlag value }
  | _ => return settings

/-- The names of the paths, in the order that an array gives them. -/
def pathNames : List String :=
  ["configuration", "fallback_configuration", "catalog", "locales", "maps_dir", "names_file",
    "snapshot", "openapi"]

/-- The names of the choices about rendering, in the order that an array gives them. -/
def renderingNames : List String := ["templates", "strict", "openapi"]

/-- Sets the fields of a section, which is a table or an array of the fields in order. -/
def setSection (set : Settings → String → Toml → Option Settings) (names : List String)
    (settings : Settings) (value : Toml) : Option Settings :=
  match value with
  | .table _ members =>
    members.foldlM (fun settings (name, value) => set settings name value) settings
  | other => do
    let items ← other.listItems?
    (names.zip items).foldlM (fun settings (name, value) => set settings name value) settings

def take (settings : Settings) (name : String) (value : Toml) : Option Settings :=
  match name with
  | "paths" => setSection setPath pathNames settings value
  | "render" => setSection setRendering renderingNames settings value
  | _ => some settings

def read? (text : Text) : Option Settings := do
  let table ← Toml.parse? text
  table.foldlM (fun settings (name, value) => settings.take name value) {}

def fileName : String := "vizhub.toml"

/-- Reads the settings file of a root; there need not be one. -/
def load (tree : FileTree) (root : String) : Except BuildError Settings :=
  let path := FilePath.join root fileName
  if !tree.exists? path then .ok {}
  else do
    let text ← (Activity.readingSettings path).run .file (tree.readText path)
    match read? text.toList with
    | some settings => .ok settings
    | none => .error (.settings path)

def templatesFor (settings : Settings) (engine : Engine) : List String :=
  settings.templates.map fun template =>
    String.ofList (Text.replaceAll "\x7bproxy\x7d".toList engine.name.toList template.toList)

end Settings

end HubRules
