import HubRules.Json.Typed

/-!
# The catalog of visualizations

The catalog as it is written: groups of units, each with fields that have a
meaning and further ones that are kept for templates.
-/

namespace HubRules

/-- A visualization that can be deployed. -/
structure VisualizationUnit where
  id : String
  /-- The template of its URL. -/
  url : Option String
  /-- The template of its download URL. -/
  download : Option String
  /-- The parts of its icon's classes. -/
  icon : List String
  /-- Whether it is listed and built. -/
  index : Bool
  /-- Whether it gets proxy rules. -/
  proxied : Bool
  /-- Its repository, where that is not named like it. -/
  repo : Option String
  skipTest : Bool
  extra : Members

/-- Units that are shown together. -/
structure VisualizationGroup where
  id : String
  items : List VisualizationUnit
  extra : Members

/-- The catalog. -/
structure Catalog where
  groups : List VisualizationGroup
  extra : Members

def VisualizationUnit.repository (unit : VisualizationUnit) : String := unit.repo.getD unit.id

namespace Catalog

open Json (Reader Fault)

/-- Takes a field that may stand only once. -/
def once {α : Type} (field : String) (found : Option α)
    (read : Reader → Except Fault (α × Reader)) (r : Reader) :
    Except Fault (Option α × Reader) := do
  if found.isSome then throw (.mismatch (.duplicate field))
  let (value, r) ← r.member read
  return (some value, r)

/-- Takes a member that has no meaning of its own; `depth` is what containers in
it may nest. -/
def keep (depth : Nat) (extra : Members) (name : String) (r : Reader) :
    Except Fault (Members × Reader) := do
  let (value, r) ← r.member (Reader.value depth)
  return (extra.set name value, r)

/-- The fields of a unit that were read so far. -/
structure UnitFields where
  id : Option String := none
  url : Option (Option String) := none
  download : Option (Option String) := none
  icon : Option (List String) := none
  index : Option Bool := none
  proxied : Option Bool := none
  repo : Option (Option String) := none
  skipTest : Option Bool := none
  extra : Members := []

def UnitFields.take (fields : UnitFields) (name : String) (r : Reader) :
    Except Fault (UnitFields × Reader) := do
  match name with
  | "id" =>
    let (value, r) ← once name fields.id Reader.text r
    return ({ fields with id := value }, r)
  | "url" =>
    let (value, r) ← once name fields.url Reader.optionalText r
    return ({ fields with url := value }, r)
  | "download" =>
    let (value, r) ← once name fields.download Reader.optionalText r
    return ({ fields with download := value }, r)
  | "icon" =>
    let (value, r) ← once name fields.icon (Reader.list Reader.text) r
    return ({ fields with icon := value }, r)
  | "index" =>
    let (value, r) ← once name fields.index Reader.flag r
    return ({ fields with index := value }, r)
  | "nginx" | "proxied" =>
    let (value, r) ← once "nginx" fields.proxied Reader.flag r
    return ({ fields with proxied := value }, r)
  | "repo" =>
    let (value, r) ← once name fields.repo Reader.optionalText r
    return ({ fields with repo := value }, r)
  | "skip_test" =>
    let (value, r) ← once name fields.skipTest Reader.flag r
    return ({ fields with skipTest := value }, r)
  | _ =>
    let (extra, r) ← keep (Reader.maxDepth - 5) fields.extra name r
    return ({ fields with extra := extra }, r)

/-- Reads a unit. It must have an id; it is listed and proxied unless it says
otherwise. -/
def readUnit (r : Reader) : Except Fault (VisualizationUnit × Reader) := do
  let (fields, r) ← r.object "struct VisualizationUnit" UnitFields.take {}
  match fields.id with
  | none => throw (.mismatch (.missing "id"))
  | some id =>
    return ({ id
              url := fields.url.getD none
              download := fields.download.getD none
              icon := fields.icon.getD []
              index := fields.index.getD true
              proxied := fields.proxied.getD true
              repo := fields.repo.getD none
              skipTest := fields.skipTest.getD false
              extra := fields.extra }, r)

/-- The fields of a group that were read so far. -/
structure GroupFields where
  id : Option String := none
  items : Option (List VisualizationUnit) := none
  extra : Members := []

def GroupFields.take (fields : GroupFields) (name : String) (r : Reader) :
    Except Fault (GroupFields × Reader) := do
  match name with
  | "id" =>
    let (value, r) ← once name fields.id Reader.text r
    return ({ fields with id := value }, r)
  | "items" =>
    let (value, r) ← once name fields.items (Reader.list readUnit) r
    return ({ fields with items := value }, r)
  | _ =>
    let (extra, r) ← keep (Reader.maxDepth - 3) fields.extra name r
    return ({ fields with extra := extra }, r)

/-- Reads a group. It must have an id. -/
def readGroup (r : Reader) : Except Fault (VisualizationGroup × Reader) := do
  let (fields, r) ← r.object "struct VisualizationGroup" GroupFields.take {}
  match fields.id with
  | none => throw (.mismatch (.missing "id"))
  | some id => return (⟨id, fields.items.getD [], fields.extra⟩, r)

/-- The fields of a catalog that were read so far. -/
structure Fields where
  groups : Option (List VisualizationGroup) := none
  extra : Members := []

def Fields.take (fields : Fields) (name : String) (r : Reader) :
    Except Fault (Fields × Reader) := do
  match name with
  | "groups" =>
    let (value, r) ← once name fields.groups (Reader.list readGroup) r
    return ({ fields with groups := value }, r)
  | _ =>
    let (extra, r) ← keep (Reader.maxDepth - 1) fields.extra name r
    return ({ fields with extra := extra }, r)

def read (text : Text) : Except Fault Catalog :=
  Reader.whole (fun r => do
    let (fields, r) ← r.object "struct Catalog" Fields.take {}
    return (⟨fields.groups.getD [], fields.extra⟩, r)) text

end Catalog

end HubRules
