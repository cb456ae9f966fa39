import HubRules.Json.Basic
import HubRules.Number.Shortest
import HubRules.Text.Basic

/-!
# Printing JSON

The compact form, without blanks, and the indented one. Numbers print their
shortest digits; strings escape only the quote, the backslash and the control
characters below U+0020.
-/

namespace HubRules

def Text.ofNat (n : Nat) : Text := Nat.toDigits 10 n

def Text.ofInt (i : Int) : Text :=
  if i < 0 then '-' :: Text.ofNat i.natAbs else Text.ofNat i.natAbs

/-- A double in JSON: positional from `1e-5` up to below `1e16` and always with
a fraction, otherwise with an exponent that carries its sign. -/
def Binary64.toText (x : Binary64) : Text :=
  let d := x.shortest
  let digits := Text.ofNat d.digits
  let point := d.exponent + digits.length
  let body :=
    if x.isZero then "0.0".toList
    else if d.exponent ≥ 0 && point ≤ 16 then
      digits ++ List.replicate d.exponent.toNat '0' ++ ".0".toList
    else if 0 < point && point ≤ 16 then
      digits.take point.toNat ++ '.' :: digits.drop point.toNat
    else if -5 < point && point ≤ 0 then
      "0.".toList ++ List.replicate (-point).toNat '0' ++ digits
    else
      let e := point - 1
      let sign := if e < 0 then '-' else '+'
      let mantissa := match digits with
        | [] => []
        | [first] => [first]
        | first :: rest => first :: '.' :: rest
      mantissa ++ 'e' :: sign :: Text.ofNat e.natAbs
  if x.negative then '-' :: body else body

def Number.toText : Number → Text
  | .integer i => Text.ofInt i
  | .float x => x.toText

namespace Json

def hexDigit (n : Nat) : Char := (Nat.toDigits 16 n).getD 0 '0'

def escapeChar (c : Char) : Text :=
  match c with
  | '"' => ['\\', '"']
  | '\\' => ['\\', '\\']
  | '\n' => ['\\', 'n']
  | '\r' => ['\\', 'r']
  | '\t' => ['\\', 't']
  | c =>
    if c.toNat == 8 then ['\\', 'b']
    else if c.toNat == 12 then ['\\', 'f']
    else if c.toNat < 32 then
      ['\\', 'u', '0', '0', hexDigit (c.toNat / 16), hexDigit (c.toNat % 16)]
    else [c]

def quote (s : String) : Text := '"' :: (s.toList.flatMap escapeChar ++ ['"'])

mutual

def print : Json → Text
  | .null => "null".toList
  | .bool true => "true".toList
  | .bool false => "false".toList
  | .number n => n.toText
  | .string s => quote s
  | .array items => '[' :: (printItems items ++ [']'])
  | .object members => '\x7b' :: (printMembers members ++ ['\x7d'])

def printItems : List Json → Text
  | [] => []
  | [value] => print value
  | value :: rest => print value ++ ',' :: printItems rest

def printMembers : List (String × Json) → Text
  | [] => []
  | [(name, value)] => quote name ++ ':' :: print value
  | (name, value) :: rest => quote name ++ ':' :: print value ++ ',' :: printMembers rest

end

/-- A new line at a depth, two blanks to a level. -/
def newLine (depth : Nat) : Text := '\n' :: List.replicate (2 * depth) ' '

mutual

/-- The indented form of a value at a depth; empty containers stay on one line. -/
def printIndented (depth : Nat) : Json → Text
  | .null => "null".toList
  | .bool true => "true".toList
  | .bool false => "false".toList
  | .number n => n.toText
  | .string s => quote s
  | .array [] => "[]".toList
  | .array items => '[' :: (printIndentedItems (depth + 1) items ++ newLine depth ++ [']'])
  | .object [] => ['\x7b', '\x7d']
  | .object members =>
    '\x7b' :: (printIndentedMembers (depth + 1) members ++ newLine depth ++ ['\x7d'])

def printIndentedItems (depth : Nat) : List Json → Text
  | [] => []
  | [value] => newLine depth ++ printIndented depth value
  | value :: rest =>
    newLine depth ++ printIndented depth value ++ ',' :: printIndentedItems depth rest

def printIndentedMembers (depth : Nat) : List (String × Json) → Text
  | [] => []
  | [(name, value)] => newLine depth ++ quote name ++ ": ".toList ++ printIndented depth value
  | (name, value) :: rest =>
    newLine depth ++ quote name ++ ": ".toList ++ printIndented depth value
      ++ ',' :: printIndentedMembers depth rest

end

def toString (value : Json) : String := String.ofList value.print

def toIndentedString (value : Json) : String := String.ofList (value.printIndented 0)

/-- A scalar as plain text: strings unquoted, `null` empty, anything else in its
compact form. -/
def toPlainText : Json → Text
  | .null => []
  | .string s => s.toList
  | value => value.print

end Json

end HubRules
