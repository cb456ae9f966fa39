import HubRules.Json.Printer
import HubRules.Number.Decimal

/-!
# Values in templates

How a value prints, which values the block helpers count as true, and how the
comparing helpers order two values.
-/

namespace HubRules.Template

mutual

def display : Json → Text
  | .null => []
  | .bool b => (if b then "true" else "false").toList
  | .number n => n.toText
  | .string s => s.toList
  | .array items => '[' :: (displayItems items ++ [']'])
  | .object _ => "[object]".toList

/-- The texts of values with commas between them. -/
def displayItems : List Json → Text
  | [] => []
  | [value] => display value
  | value :: rest => display value ++ ", ".toList ++ displayItems rest

end

/-- Whether a value counts as true for a block helper: an empty container does not,
and a number only if it is neither zero nor subnormal, or where zero is included. -/
def holds (includeZero : Bool) : Json → Bool
  | .null => false
  | .bool b => b
  | .number n => includeZero || n.toBinary64.isNormal
  | .string s => !s.isEmpty
  | .array items => !items.isEmpty
  | .object members => !members.isEmpty

/-- The order of two values: numbers, strings, booleans, and a number with a string
that holds one. -/
def order? : Json → Json → Option Ordering
  | .number x, .number y => some (x.compare y)
  | .string s, .string t => some (compare s t)
  | .bool a, .bool b => some (compare a b)
  | .number x, .string t => (Decimal.read? t.toList).bind (Decimal.compareTo? x.toBinary64)
  | .string s, .number y =>
    ((Decimal.read? s.toList).bind (Decimal.compareTo? y.toBinary64)).map Ordering.swap
  | _, _ => none

/-- The size of a container, the bytes of a string, and zero for anything else. -/
def size : Json → Nat
  | .array items => items.length
  | .object members => members.length
  | .string s => s.utf8ByteSize
  | _ => 0

end HubRules.Template
