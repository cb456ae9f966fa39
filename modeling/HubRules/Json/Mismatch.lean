import HubRules.Json.Printer
import HubRules.Text.Escaped

/-!
# Values of the wrong shape

What a reader of typed data found where it expected something else.
-/

namespace HubRules

/-- What stands in a document, as far as a message tells. -/
inductive Found where
  | null
  | bool (value : Bool)
  | number (value : Number)
  | string (value : String)
  | sequence
  | map
  deriving DecidableEq, Repr

/-- A value that does not have the expected shape. -/
inductive Mismatch where
  /-- A value of another type. -/
  | type (found : Found) (expected : String)
  /-- A sequence with too few or too many items. -/
  | length (count : Nat) (expected : String)
  /-- A required field is absent. -/
  | missing (field : String)
  /-- A field stands twice. -/
  | duplicate (field : String)
  deriving DecidableEq, Repr

namespace Found

def ofJson : Json → Found
  | .null => .null
  | .bool b => .bool b
  | .number n => .number n
  | .string s => .string s
  | .array _ => .sequence
  | .object _ => .map

def describe : Found → String
  | .null => "null"
  | .bool true => "boolean `true`"
  | .bool false => "boolean `false`"
  | .number (.integer i) => s!"integer `{String.ofList (Text.ofInt i)}`"
  | .number (.float x) => s!"floating point `{String.ofList x.toText}`"
  | .string s => s!"string {String.ofList (Text.quoted s.toList)}"
  | .sequence => "sequence"
  | .map => "map"

end Found

def Mismatch.message : Mismatch → String
  | .type found expected => s!"invalid type: {found.describe}, expected {expected}"
  | .length count expected => s!"invalid length {count}, expected {expected}"
  | .missing field => s!"missing field `{field}`"
  | .duplicate field => s!"duplicate field `{field}`"

end HubRules
