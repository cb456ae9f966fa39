import HubRules.Text.Basic

/-!
# TOML values

The tables of a settings file. A table remembers how it was begun, because that
decides whether later lines may add to it.
-/

namespace HubRules

/-- How a table was begun. -/
inductive Toml.Origin where
  /-- By a header of its own. -/
  | header
  /-- On the way to the table of a header. -/
  | path
  /-- On the way to a dotted key. -/
  | dotted
  /-- Between braces; nothing is added to it later. -/
  | inline_
  deriving DecidableEq, Repr

/-- A TOML value. Numbers and dates have a form but no use here. -/
inductive Toml where
  | string (text : String)
  | boolean (value : Bool)
  | number
  | date
  | array (items : List Toml)
  | table (origin : Toml.Origin) (members : List (String × Toml))
  /-- Tables that were begun by headers between doubled brackets, the last one first. -/
  | tables (last : List (String × Toml)) (before : List Toml)

namespace Toml

/-- The members of a table, in order. -/
abbrev Table := List (String × Toml)

namespace Table

def get? (table : Table) (key : String) : Option Toml := table.lookup key

/-- Sets a member of a table, in place if it is there. -/
def set : Table → String → Toml → Table
  | [], key, value => [(key, value)]
  | (name, old) :: rest, key, value =>
    if name == key then (name, value) :: rest else (name, old) :: set rest key value

/-- Adds a member to a table that has none of that name. -/
def add? (table : Table) (key : String) (value : Toml) : Option Table :=
  if (table.get? key).isSome then none else some (table ++ [(key, value)])

/-- Adds a member below a dotted key. Only tables that were not begun by a header of
their own can be added to. -/
def addDotted? (table : Table) : List String → Toml → Option Table
  | [], _ => none
  | [key], value => table.add? key value
  | key :: keys, value =>
    match table.get? key with
    | none => do
      let inner ← addDotted? [] keys value
      return table.set key (.table .dotted inner)
    | some (.table .dotted members) => do
      let inner ← addDotted? members keys value
      return table.set key (.table .dotted inner)
    | some (.table .path members) => do
      let inner ← addDotted? members keys value
      return table.set key (.table .path inner)
    | some _ => none

def begin? (table : Table) : List String → Option Table
  | [] => none
  | [key] =>
    match table.get? key with
    | none => some (table.set key (.table .header []))
    | some (.table .path members) => some (table.set key (.table .header members))
    | some _ => none
  | key :: keys => do
    match table.get? key with
    | none => return table.set key (.table .path (← begin? [] keys))
    | some (.table .inline_ _) => none
    | some (.table origin members) => return table.set key (.table origin (← begin? members keys))
    | some (.tables last before) => return table.set key (.tables (← begin? last keys) before)
    | some _ => none

/-- Begins a further table of a header between doubled brackets. -/
def beginNext? (table : Table) : List String → Option Table
  | [] => none
  | [key] =>
    match table.get? key with
    | none => some (table.set key (.tables [] []))
    | some (.tables last before) =>
      some (table.set key (.tables [] (.table .header last :: before)))
    | some _ => none
  | key :: keys => do
    match table.get? key with
    | none => return table.set key (.table .path (← beginNext? [] keys))
    | some (.table .inline_ _) => none
    | some (.table origin members) =>
      return table.set key (.table origin (← beginNext? members keys))
    | some (.tables last before) => return table.set key (.tables (← beginNext? last keys) before)
    | some _ => none

/-- Changes the table that the last header at some keys began. -/
def change? (table : Table) (change : Table → Option Table) : List String → Option Table
  | [] => change table
  | key :: keys => do
    match table.get? key with
    | some (.table origin members) =>
      return table.set key (.table origin (← change? members change keys))
    | some (.tables last before) =>
      return table.set key (.tables (← change? last change keys) before)
    | _ => none

end Table

def listItems? : Toml → Option (List Toml)
  | .array items => some items
  | .tables last before => some ((.table .header last :: before).reverse)
  | _ => none

end Toml

end HubRules
