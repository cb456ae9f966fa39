import HubRules.Configuration.Basic

/-!
# Routing tables

Every routing group may have a table of entries. An entry names a variable and
tells what the proxy looks up for it: the input, a default and the output table.

httpd looks branches and hosts up in files, one for every entry of the tables with a line for
every key of the entry's table.
-/

namespace HubRules

/-- One entry of a routing table. -/
structure Mapping where
  /-- What is looked up, with references to captured parts of the request. -/
  input : String
  /-- What stands for an input that the table does not hold. -/
  default? : Option String
  /-- The table. -/
  output : Members

/-- The entries of a routing group, in order. -/
structure RoutingTable where
  group : RoutingGroup
  entries : List (String × Mapping)

namespace Mapping

def readText (value : Json) : Except Mismatch String :=
  match value with
  | .string s => .ok s
  | other => .error (.type (.ofJson other) "a string")

/-- An optional text; `null` is none. -/
def readOptional (value : Json) : Except Mismatch (Option String) :=
  match value with
  | .null => .ok none
  | other => (readText other).map some

def readMembers (value : Json) : Except Mismatch Members :=
  match value with
  | .object members => .ok members
  | other => .error (.type (.ofJson other) "a map")

/-- The fields of a mapping that were read so far. -/
structure Fields where
  input : Option String := none
  default? : Option String := none
  output : Members := []

/-- Takes one member into the fields; unknown ones are passed over. -/
def Fields.take (fields : Fields) (name : String) (value : Json) : Except Mismatch Fields :=
  if name = "input" then
    (readText value).map fun text => { fields with input := some text }
  else if name = "default" then
    (readOptional value).map fun text => { fields with default? := text }
  else if name = "output" then
    (readMembers value).map fun members => { fields with output := members }
  else .ok fields

/-- The mapping of an array, whose items are the fields in order. -/
def readItems (items : List Json) : Except Mismatch Mapping :=
  match items with
  | [] => .error (.length 0 "struct Mapping with 3 elements")
  | input :: rest => do
    let input ← readText input
    let default? ← (rest[0]?).elim (pure none) readOptional
    let output ← (rest[1]?).elim (pure []) readMembers
    if rest.length > 2 then throw (.length (rest.length + 1) "fewer elements in array")
    return ⟨input, default?, output⟩

/-- Reads a mapping from an object or from an array. -/
def read (value : Json) : Except Mismatch Mapping :=
  match value with
  | .object members => do
    let fields ← members.foldlM (fun fields member => Fields.take fields member.1 member.2) {}
    match fields.input with
    | some input => return ⟨input, fields.default?, fields.output⟩
    | none => throw (.missing "input")
  | .array items => readItems items
  | other => .error (.type (.ofJson other) "struct Mapping")

def outputTexts (mapping : Mapping) : List (String × String) :=
  mapping.output.map fun (key, value) => (key, String.ofList value.toPlainText)

end Mapping

namespace RoutingTable

def empty (group : RoutingGroup) : RoutingTable := ⟨group, []⟩

def get? (table : RoutingTable) (name : String) : Option Mapping := table.entries.lookup name

def isEmpty (table : RoutingTable) : Bool := table.entries.isEmpty

def mapName (table : RoutingTable) (entry : String) : String := table.group.name ++ "_" ++ entry

def readEntries (group : RoutingGroup) (members : Members) :
    Except ConfigError (List (String × Mapping)) :=
  members.mapM fun (entry, value) =>
    match Mapping.read value with
    | .ok mapping => .ok (entry, mapping)
    | .error cause => .error (.invalidMapping group entry cause)

end RoutingTable

/-- The routing table of a group; a group that the configuration does not
mention has an empty one. -/
def Configuration.routingTable (config : Configuration) (group : RoutingGroup) :
    Except ConfigError RoutingTable :=
  match config.get? "hub_mapping" with
  | none | some .null => .ok (.empty group)
  | some (.object groups) =>
    match Members.get? groups group.name with
    | none => .ok (.empty group)
    | some (.object entries) => (RoutingTable.readEntries group entries).map (⟨group, ·⟩)
    | some _ => .error (.wrongType s!"hub_mapping.{group.name}" .object)
  | some _ => .error (.wrongType "hub_mapping" .object)

/-! ## Lookup maps -/

/-- A lookup map: its name and the text of its file. -/
structure LookupMap where
  name : String
  content : String
  deriving DecidableEq, Repr

namespace LookupMap

def fileName (map : LookupMap) : String := map.name ++ ".txt"

/-- The lines of a table, each a key and its value; the last one is not ended. -/
def render (mapping : Mapping) : String :=
  "\n".intercalate (mapping.outputTexts.map fun (key, value) => key ++ " " ++ value)

def ofTable (table : RoutingTable) : List LookupMap :=
  table.entries.map fun (entry, mapping) => ⟨table.mapName entry, render mapping⟩

end LookupMap

/-- The lookup maps of a configuration, group by group. -/
def Configuration.lookupMaps (config : Configuration) : Except ConfigError (List LookupMap) := do
  let tables ← RoutingGroup.all.mapM config.routingTable
  return tables.flatMap LookupMap.ofTable

end HubRules
