import HubRules.Number.Binary64

/-!
# JSON values

Documents whose objects keep the order of their members. A member that is set
again keeps its place and takes the new value (`Members.names_set`, `Members.get?_set`).
-/

namespace HubRules

/-- A JSON number: an integer that fits 64 bits, or a double. -/
inductive Number where
  | integer (value : Int)
  | float (value : Binary64)
  deriving DecidableEq, Repr

/-- A JSON value. -/
inductive Json where
  | null
  | bool (value : Bool)
  | number (value : Number)
  | string (value : String)
  | array (items : List Json)
  | object (members : List (String × Json))

instance : Inhabited Json := ⟨.null⟩

namespace Number

def toBinary64 : Number → Binary64
  | .integer i => (Binary64.ofInt i).getD (Binary64.zero false)
  | .float x => x

def isZero : Number → Bool
  | .integer i => i == 0
  | .float x => x.isZero

/-- Equality of JSON numbers: an integer never equals a double. -/
def same : Number → Number → Bool
  | .integer i, .integer j => i == j
  | .float x, .float y => x.compare y == .eq
  | _, _ => false

def compare : Number → Number → Ordering
  | .integer i, .integer j => Ord.compare i j
  | .integer i, .float y => Binary64.compareInt i y
  | .float x, .integer j => (Binary64.compareInt j x).swap
  | .float x, .float y => x.compare y

end Number

/-- The members of an object, in order. -/
abbrev Members := List (String × Json)

namespace Members

def get? (members : Members) (name : String) : Option Json := members.lookup name

def contains (members : Members) (name : String) : Bool := (members.get? name).isSome

/-- Sets a member: in place if the name is there, else at the end. -/
def set : Members → String → Json → Members
  | [], name, value => [(name, value)]
  | (key, old) :: rest, name, value =>
    if key == name then (key, value) :: rest else (key, old) :: Members.set rest name value

theorem get?_set (members : Members) (name key : String) (value : Json) :
    (members.set name value).get? key = if key = name then some value else members.get? key := by
  induction members with
  | nil => grind [set, get?]
  | cons member rest ih =>
    obtain ⟨first, old⟩ := member
    simp only [set, get?] at ih ⊢
    by_cases h : first = name <;> grind

/-- Sets every member of a list, one after the other. -/
def setAll (members : Members) (added : List (String × Json)) : Members :=
  added.foldl (fun acc member => Members.set acc member.1 member.2) members

def names (members : Members) : List String := members.map (·.1)

/-- A name that is there keeps its place; a new one comes last. -/
theorem names_set (members : Members) (name : String) (value : Json) :
    (members.set name value).names =
      if name ∈ members.names then members.names else members.names ++ [name] := by
  induction members with
  | nil => simp [set, names]
  | cons member rest ih =>
    obtain ⟨first, old⟩ := member
    simp only [set, names] at ih ⊢
    by_cases h : first = name
    · simp [h]
    · by_cases hmem : name ∈ rest.map (·.1)
      · simp [h, ih, hmem]
      · simp [h, ih, hmem, Ne.symm h]

end Members

namespace Json

mutual

/-- Equality of values; the order of members does not matter to it. -/
def same : Json → Json → Bool
  | .null, .null => true
  | .bool a, .bool b => a == b
  | .number a, .number b => a.same b
  | .string a, .string b => a == b
  | .array a, .array b => sameItems a b
  | .object a, .object b => a.length == b.length && sameMembers a b
  | _, _ => false

def sameItems : List Json → List Json → Bool
  | [], [] => true
  | a :: as, b :: bs => same a b && sameItems as bs
  | _, _ => false

/-- Whether every member of the first list has an equal one in the second. -/
def sameMembers : List (String × Json) → List (String × Json) → Bool
  | [], _ => true
  | (name, a) :: rest, others =>
    (match others.lookup name with
      | some b => same a b
      | none => false) && sameMembers rest others

end

def string? : Json → Option String
  | .string s => some s
  | _ => none

def members? : Json → Option Members
  | .object members => some members
  | _ => none

def get? (value : Json) (name : String) : Option Json :=
  value.members?.bind (·.get? name)

def ofStrings (texts : List String) : Json := .array (texts.map .string)

def ofNat (n : Nat) : Json := .number (.integer n)

/-- Whether a value counts as true: `null`, `false`, zero and the empty string
do not, everything else does, empty arrays and objects included. -/
def isTruthy : Json → Bool
  | .null => false
  | .bool b => b
  | .number n => !n.isZero
  | .string s => !s.isEmpty
  | .array _ => true
  | .object _ => true

end Json

end HubRules
