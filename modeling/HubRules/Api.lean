import HubRules.BuildError
import HubRules.Configuration.Routing
import HubRules.FileTree.Basic
import HubRules.Json.Typed
import HubRules.Resolution
import HubRules.Template.Render

/-!
# The document of the prediction interface

The values and the helper for the template of the interface's document: URLs carry
a parameter for the organization, the paths under which predictions are served are
listed, and examples are taken from files.
-/

namespace HubRules

namespace Api

/-- What stands for the placeholder in the URLs of the document. -/
def organizationParameter : Text := "\x7borganization\x7d".toList

/-- The keys of the table of an entry; none if there is no such entry. -/
def tableKeys (table : RoutingTable) (entry : String) : List String :=
  ((table.get? entry).map (·.output.names)).getD []

/-- The quoted paths under which predictions are served: every hub, or none, before
every organization. -/
def predictionPaths (base : Configuration) : Except ConfigError (List String) := do
  let table ← base.routingTable .prediction
  let hubs := tableKeys table "hub" ++ [""]
  let organizations := tableKeys table "branch_organization"
  return hubs.flatMap fun hub =>
    organizations.map fun organization => "\"" ++ hub ++ organization ++ "\""

/-- The values that the template of the document is rendered with. -/
def values (resolution : Resolution) : Except ConfigError Json := do
  let paths ← predictionPaths resolution.base
  let config := resolution.base.resolveUrls (.literal organizationParameter)
  let none := "\"\""
  let joined := if paths.isEmpty then none else ", ".intercalate paths
  return .object (config.members
    |>.set "prediction_paths" (.string joined)
    |>.set "prediction_path" (.string (paths.headD none)))

/-- The field of an example that names its file. -/
def fileField : String := "externalValue"

/-- The value that the file of an example holds: a JSON document if its name ends so,
else its text. -/
def exampleValue (tree : FileTree) (root name : String) : Except HelperError Json := do
  let path := FilePath.join root name
  let content ← (tree.readText path).mapError (.exampleFile path)
  if "json".toList.isSuffixOf name.toList then
    (Json.parse content.toList).mapError (.exampleJson path)
  else return .string content

def readExample (text : Text) : Except Json.Fault Members :=
  Json.Reader.whole (fun r => r.object "a map" (fun (found : Members) key r => do
    let (value, r) ← r.member (Json.Reader.value (Json.Reader.maxDepth - 1))
    return (found.set key value, r)) []) text

/-- The helper that puts the file of an example into it: `name:` and an object. -/
def exampleFile (tree : FileTree) (root : String) : Helper := fun text =>
  match Text.cut ':' text with
  | none => .error (.arguments .example text)
  | some (name, object) => do
    let fields ← (readExample object).mapError (.exampleText name)
    match Members.get? fields fileField with
    | some (.string file) => do
      let value ← exampleValue tree root file
      let kept : Members := fields.filter (·.1 ≠ fileField)
      return name ++ ": ".toList ++ (Json.object (kept.set "value" value)).print
    | _ => .error (.exampleWithoutFile name)

def helpers (tree : FileTree) (root : String) : Helpers :=
  Helpers.empty.insert "example_file" (exampleFile tree root)

end Api

end HubRules
