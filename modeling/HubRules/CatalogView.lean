import HubRules.BuildError
import HubRules.Catalog
import HubRules.Configuration.Basic
import HubRules.Messages
import HubRules.Template.Render

/-!
# The catalog as it is shown

The units that an allow-list keeps, with what is computed for them: URLs, icons and
localized texts. The order of groups and units is that of the catalog.
-/

namespace HubRules

/-- The markup of an icon: the first part is a class as it is, the others are names
of symbols. -/
def iconMarkup (parts : List String) : String :=
  let classes := match parts with
    | [] => []
    | style :: symbols => style :: symbols.map ("fa-" ++ ·)
  "<span class=\"icon\"><i class=\"" ++ " ".intercalate classes
    ++ "\" aria-hidden=\"true\"></i></span>"

/-- A unit of the catalog with what is computed for it. -/
structure UnitView where
  unit : VisualizationUnit
  /-- Where the hub shows it. -/
  link : String
  download : String
  title : String
  content : String

/-- A group of the catalog with its localized title. -/
structure GroupView where
  group : VisualizationGroup
  title : String
  items : List UnitView

/-- The catalog as it is shown. -/
structure CatalogView where
  groups : List GroupView
  extra : Members

namespace UnitView

/-- Renders the template of a URL over the configuration, without helpers. -/
def renderUrl (display : Configuration) (source : String) : Except BuildError String :=
  match Template.renderText source.toList display.toJson .empty false with
  | .ok text => .ok (String.ofList text)
  | .error cause => .error (.template cause)

def ofUnit (display : Configuration) (messages : Messages) (unit : VisualizationUnit) :
    Except BuildError UnitView := do
  let link ← match unit.url with
    | some url => renderUrl display url
    | none => pure unit.id
  let download ← match unit.download with
    | some download => renderUrl display download
    | none => do
      let folder ← (display.text "download_url").mapError .configuration
      pure (folder ++ unit.id ++ ".zip")
  return {
    unit
    link
    download
    title := messages.markup (unit.id ++ "-title")
    content := messages.markup (unit.id ++ "-content") }

/-- The fields of a unit; a field that it adds replaces a computed one of that name. -/
def toJson (view : UnitView) : Json :=
  let unit := view.unit
  .object (Members.setAll (
    [("id", .string unit.id), ("repo", .string unit.repository), ("index", .bool unit.index),
      ("nginx", .bool unit.proxied), ("skip_test", .bool unit.skipTest)]
    ++ (unit.url.map fun url => ("url", Json.string url)).toList
    ++ [("show", .string view.link), ("download", .string view.download),
      ("icon_parts", .ofStrings unit.icon), ("icon", .string (iconMarkup unit.icon)),
      ("title", .string view.title), ("content", .string view.content)]) unit.extra)

end UnitView

namespace GroupView

/-- What is computed for a group: its units that are allowed. -/
def ofGroup (display : Configuration) (messages : Messages) (allows : String → Bool)
    (group : VisualizationGroup) : Except BuildError GroupView := do
  let items ← (group.items.filter (allows ·.id)).mapM fun unit =>
    (UnitView.ofUnit display messages unit).mapError (.during (.enriching unit.id))
  return ⟨group, messages.markup (group.id ++ "-title"), items⟩

/-- The fields of a group; one that it adds replaces a computed one of that name. -/
def toJson (view : GroupView) : Json :=
  .object (Members.setAll
    [("id", .string view.group.id), ("title", .string view.title),
      ("items", .array (view.items.map UnitView.toJson))] view.group.extra)

end GroupView

namespace CatalogView

/-- The catalog as it is shown; without an allow-list every unit is kept. -/
def ofCatalog (display : Configuration) (messages : Messages) (allowed : Option (List String))
    (catalog : Catalog) : Except BuildError CatalogView := do
  let allows (id : String) : Bool := allowed.all (·.contains id)
  let groups ← catalog.groups.mapM (GroupView.ofGroup display messages allows)
  return ⟨groups, catalog.extra⟩

def members (view : CatalogView) : Members :=
  Members.setAll [("groups", .array (view.groups.map GroupView.toJson))] view.extra

def units (view : CatalogView) : List VisualizationUnit :=
  view.groups.flatMap fun group => group.items.map (·.unit)

/-- The repositories of the units that are listed. -/
def names (view : CatalogView) : List String :=
  (view.units.filter (·.index)).map (·.repository)

def proxiedNames (view : CatalogView) : List String :=
  (view.units.filter (·.proxied)).map (·.id)

end CatalogView

end HubRules
