import HubRules.Template.Invocation

/-!
# Built-in helpers

The helpers that every template can call: conditions, loops, look-ups, comparisons
and logic.
-/

namespace HubRules.Template.Builtin

/-- What a helper does with its call. -/
abbrev Rule := Invocation → Except TemplateError Output

/-- Renders the body if the condition is what it should be, else the `else` part. -/
def condition (wanted : Bool) : Rule := fun call => do
  let argument ← call.param "if" 0
  let includeZero := match call.option? "includeZero" with
    | some (.bool b) => b
    | _ => false
  let text ←
    if holds includeZero argument.value == wanted then call.renderBody call.scope
    else call.renderInverse
  return .markup text

/-- The frame of one round of a loop: the value, its key and index, and whether it is
the first or the last one. -/
def loopFrame (names : List String) (count index : Nat) (key : Option String) (found : Found) :
    Frame where
  focus := found
  locals := [("first", .bool (index == 0)), ("last", .bool (index + 1 == count)),
    ("index", .ofNat index)] ++ (key.map fun key => ("key", .string key)).toList
  names :=
    let place : Json := (key.map .string).getD (.ofNat index)
    match names with
    | [value] => [(value, found)]
    | [value, second] => [(second, ⟨place, none⟩), (value, found)]
    | _ => []

/-- The frames of a loop over values with their keys, if they have any. -/
def loopFrames (names : List String) (values : List (Option String × Found)) : List Frame :=
  values.zipIdx.map fun ((key, found), index) =>
    loopFrame names values.length index key found

/-- The values that a loop goes over: the items of an array or the members of an
object. -/
def loopValues (found : Found) : Option (List (Option String × Found)) :=
  let below (value : Json) : Found := ⟨value, found.depth.map (· + 1)⟩
  match found.value with
  | .array items => some (items.map fun item => (none, below item))
  | .object members => some (members.map fun (key, value) => (some key, below value))
  | _ => none

def each : Rule := fun call => do
  let argument ← call.param "each" 0
  if call.body.isNone then return .markup []
  match argument.found.bind loopValues with
  | some (value :: values) =>
    return .markup (← call.renderOver (loopFrames call.names (value :: values)))
  | some [] => return .markup (← call.renderInverse)
  | none => return .markup (← call.renderInverseOf argument)

/-- Renders the body over a frame about a value that counts as true. -/
def within : Rule := fun call => do
  let argument ← call.param "with" 0
  match argument.found with
  | some found =>
    if holds false found.value then
      let names := match call.names with
        | [name] => [(name, found)]
        | _ => []
      return .markup (← call.renderOver [⟨found, [], names⟩])
    else return .markup (← call.renderInverseOf argument)
  | none => return .markup (← call.renderInverseOf argument)

/-- The item of an array or the member of an object. -/
def lookup : Rule := fun call => do
  let collection ← call.param "lookup" 0
  let key ← call.param "lookup" 1
  let found := match collection.value, key.value with
    | .array items, .number (.integer i) => if i < 0 then none else items[i.toNat]?
    | .object members, .string name => Members.get? members name
    | _, _ => none
  match found with
  | some value => return .value value
  | none => if call.strict then throw (.unresolvedKey []) else return .value .null

/-- Renders the body as it is. -/
def raw : Rule := fun call => return .markup (← call.renderBody call.scope)

def logLevels : List String := ["error", "warn", "info", "debug", "trace"]

/-- Takes a log message of a known level; nothing reaches the output. -/
def log : Rule := fun call =>
  let level := match call.option? "level" with
    | some (.string level) => level
    | _ => "info"
  if logLevels.contains (String.ofList (level.toList.map Char.toLower)) then .ok (.markup [])
  else .error (.render none (.invalidLogLevel level))

/-- An operand that has a name in messages. If rendering is strict it must have a
value. -/
def operand (call : Invocation) (helper name : String) (index : Nat) :
    Except TemplateError Json :=
  match call.params[index]? with
  | some argument =>
    if call.strict && argument.found.isNone then
      .error (.render none (.missingNamedParam helper.toList name.toList))
    else .ok argument.value
  | none => .error (.render none (.missingNamedParam helper.toList name.toList))

/-- A helper that gives a value for one operand. -/
def unary (helper : String) (rule : Json → Json) : Rule := fun call => do
  let x ← operand call helper "x" 0
  return .value (rule x)

/-- A helper that gives a truth value for two operands. -/
def binary (helper : String) (rule : Json → Json → Bool) : Rule := fun call => do
  let x ← operand call helper "x" 0
  let y ← operand call helper "y" 1
  return .value (.bool (rule x y))

def find? (name : String) : Option Rule :=
  match name with
  | "if" => some (condition true)
  | "unless" => some (condition false)
  | "each" => some each
  | "with" => some within
  | "lookup" => some lookup
  | "raw" => some raw
  | "log" => some log
  | "eq" => some (binary "eq" Json.same)
  | "ne" => some (binary "ne" fun x y => !x.same y)
  | "gt" => some (binary "gt" fun x y => order? x y == some .gt)
  | "gte" => some (binary "gte" fun x y => (order? x y).any (·.isGE))
  | "lt" => some (binary "lt" fun x y => order? x y == some .lt)
  | "lte" => some (binary "lte" fun x y => (order? x y).any (·.isLE))
  | "and" => some (binary "and" fun x y => holds false x && holds false y)
  | "or" => some (binary "or" fun x y => holds false x || holds false y)
  | "not" => some (unary "not" fun x => .bool (!holds false x))
  | "len" => some (unary "len" fun x => .ofNat (size x))
  | _ => none

end HubRules.Template.Builtin
