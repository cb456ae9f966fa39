import HubRules.Configuration.Routing
import HubRules.Text.Unicode

/-!
# References and groups

Rule text refers to captured parts of a request: by name (`$branch`) or, for the
groups of a pattern, by number (`$1`). One engine reads such references as they
are; the other reads variables of its matcher, lookups in map files and `%1`. The groups
of a pattern may have names, which a pattern can do without.
-/

namespace HubRules

namespace Reference

def isNameChar (c : Char) : Bool := c == '_' || c.isAlpha

/-- A named reference at the head of a text: its name and its length. -/
def named? (text : Text) : Option (Text × Nat) :=
  match text with
  | '$' :: rest =>
    let name := rest.takeWhile isNameChar
    if name.isEmpty then none else some (name, name.length + 1)
  | _ => none

/-- The variable in which httpd keeps the captured part of a name. -/
def httpdVariable (name : Text) : Text :=
  "%\x7bENV:MATCH_".toList ++ Text.toUpper name ++ ['\x7d']

/-- The text with every named reference turned into its httpd variable. -/
def toHttpdVariables (text : Text) : Text := Text.replaceTokens named? httpdVariable text

/-- The text with the sign of every numbered reference changed for httpd, where
the groups of a condition are `%1`, `%2`, … -/
def renumber : Text → Text
  | [] => []
  | c :: cs =>
    (if c = '$' && cs.head?.any Text.isDecimalDigit then '%' else c) :: renumber cs

/-- The httpd lookup of a table's entry: its map, input and default. -/
def httpdLookup (table : RoutingTable) (name : Text) (mapping : Mapping) : Text :=
  "$\x7b".toList ++ (table.mapName (String.ofList name)).toList
    ++ ':' :: toHttpdVariables mapping.input.toList
    ++ '|' :: (mapping.default?.elim [] fun d => toHttpdVariables d.toList)
    ++ ['\x7d']

/-- What httpd reads for a name: a lookup where the table has an entry, else the
captured part. -/
def httpdReference (table : RoutingTable) (name : Text) : Text :=
  match table.get? (String.ofList name) with
  | some mapping => httpdLookup table name mapping
  | none => httpdVariable name

/-- The text with its named references of a routing group written for an engine. -/
def write (config : Configuration) (engine : Engine) (group : RoutingGroup) (text : Text) :
    Except ConfigError Text :=
  match engine with
  | .nginx => .ok text
  | .httpd => do
    let table ← config.routingTable group
    return Text.replaceTokens named? (httpdReference table) text

end Reference

/-! ## Groups of patterns -/

namespace Pattern

def isGroupNameChar (c : Char) : Bool := c.isAlphanum || c == '_'

/-- The length of the opening of a named group at the head of a text. -/
def groupOpening? (text : Text) : Option Nat := do
  let rest ← Text.dropStart? "(?<".toList text
  let name := rest.takeWhile isGroupNameChar
  if name.isEmpty then none
  let _ ← Text.dropStart? ['>'] (rest.drop name.length)
  return name.length + 4

/-- The opening of a group in a pattern. -/
inductive Opening where
  /-- One that loses its name. -/
  | named
  /-- One that is kept, with the escaped bracket before it. -/
  | kept (text : Text)
  deriving DecidableEq, Repr

/-- The opening of a named group at the head of a text, or an escaped closing
bracket and the opening behind it. -/
def opening? (text : Text) : Option (Opening × Nat) :=
  match groupOpening? text with
  | some length => some (.named, length)
  | none => do
    let rest ← Text.dropStart? "\\]".toList text
    let length ← groupOpening? rest
    return (.kept (text.take (length + 2)), length + 2)

def Opening.write : Opening → Text
  | .named => "(?:".toList
  | .kept text => text

/-- The pattern with its named groups turned into groups that capture nothing,
except directly behind an escaped closing bracket. -/
def stripNamedGroups (pattern : Text) : Text :=
  Text.replaceTokens opening? Opening.write pattern

end Pattern

end HubRules
