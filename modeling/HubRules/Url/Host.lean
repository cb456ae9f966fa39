import HubRules.Url.Basic
import HubRules.Json.Reader

/-!
# Hosts

Reading a host: domains, whose letters become lower case, IPv4 addresses in
their octal, decimal and hexadecimal spellings, and IPv6 addresses. Also the
percent-encoding of URL parts.
-/

namespace HubRules

namespace Text

/-- A byte as two upper-case hexadecimal digits after a percent sign. -/
def percentByte (b : UInt8) : Text :=
  let digit (n : Nat) : Char := ((Nat.toDigits 16 n).getD 0 '0').toUpper
  ['%', digit (b.toNat / 16), digit (b.toNat % 16)]

/-- Percent-encodes controls, characters beyond ASCII and those that `also` names. -/
def percentEncode (also : Char → Bool) (text : Text) : Text :=
  text.flatMap fun c =>
    if c.toNat < 32 || c.toNat ≥ 127 || also c then
      (String.utf8EncodeChar c).flatMap percentByte
    else [c]

/-- The bytes of a text with its percent-encoded bytes decoded. -/
def percentDecode : Text → List UInt8
  | [] => []
  | '%' :: a :: b :: cs =>
    match Json.Reader.hexValue? a, Json.Reader.hexValue? b with
    | some x, some y => UInt8.ofNat (x * 16 + y) :: percentDecode cs
    | _, _ => 37 :: percentDecode (a :: b :: cs)
  | c :: cs => String.utf8EncodeChar c ++ percentDecode cs

/-- An ASCII letter in lower case; other characters stay. -/
def lowerAscii (text : Text) : Text := text.map Char.toLower

end Text

namespace Host

/-- The characters that no domain holds. All characters beyond ASCII are among them: names in
other scripts are refused and not turned into their `xn--` form. -/
def isForbidden (c : Char) : Bool :=
  c.toNat ≤ 32 || c.toNat ≥ 127 || "#/:<>?@[\\]^|%".toList.contains c

/-- The characters that no host of an unknown scheme holds. -/
def isForbiddenInFlat (c : Char) : Bool :=
  c.toNat == 0 || "\t\n\r #/:<>?@[\\]^|".toList.contains c

/-- A number of a base; the empty text is zero. -/
def numberOfBase (base : Nat) (text : Text) : Option Nat :=
  text.foldl (fun acc c => do
    let n ← acc
    let d ← Json.Reader.hexValue? c
    if d < base then some (n * base + d) else none) (some 0)

/-- One number of an IPv4 address in its three spellings. -/
def ipv4Number (text : Text) : Option Nat :=
  match text with
  | [] => none
  | '0' :: 'x' :: digits | '0' :: 'X' :: digits => numberOfBase 16 digits
  | '0' :: d :: digits => numberOfBase 8 (d :: digits)
  | digits => numberOfBase 10 digits

/-- The parts of a name at its dots, without an empty last one. -/
def dotParts (name : Text) : List Text :=
  let parts := Text.split '.' name
  if parts.length > 1 && parts.getLast? == some [] then parts.dropLast else parts

/-- Whether a domain must be read as an IPv4 address. -/
def endsInNumber (name : Text) : Bool :=
  match (dotParts name).getLast? with
  | none => false
  | some last => (!last.isEmpty && last.all Char.isDigit) || (ipv4Number last).isSome

/-- The address of the numbers of an IPv4 text; the last one fills what is left. -/
def ipv4OfNumbers (numbers : List Nat) : Option Nat :=
  match numbers.reverse with
  | [] => none
  | last :: before =>
    let count := before.length
    if count > 3 || last ≥ Nat.pow 2 (32 - 8 * count) || before.any (· > 255) then none
    else
      let high := before.reverse.zipIdx.foldl
        (fun acc (n, i) => acc + n * Nat.pow 2 (8 * (3 - i))) 0
      some (high + last)

def ipv4? (name : Text) : Option Nat := do
  let numbers ← (dotParts name).mapM fun part => do
    let n ← ipv4Number part
    if n < Nat.pow 2 32 then some n else none
  ipv4OfNumbers numbers

/-- The four numbers at the end of an IPv6 address, as two pieces. -/
def ipv6Tail (text : Text) : Option (List Nat) := do
  let numbers ← (Text.split '.' text).mapM fun part =>
    match part with
    | [] => none
    | '0' :: _ :: _ => none
    | digits => do
      let n ← if digits.all Char.isDigit then numberOfBase 10 digits else none
      if n ≤ 255 then some n else none
  match numbers with
  | [a, b, c, d] => some [a * 256 + b, c * 256 + d]
  | _ => none

/-- Pieces of an IPv6 address between colons. Where `tail` holds, the last one
may be an IPv4 address. -/
def ipv6Pieces (tail : Bool) : List Text → Option (List Nat)
  | [] => some []
  | part :: rest =>
    if part.contains '.' then
      if tail && rest.isEmpty then ipv6Tail part else none
    else if part.isEmpty || part.length > 4 then none
    else do
      let n ← numberOfBase 16 part
      let pieces ← ipv6Pieces tail rest
      return n :: pieces

/-- The parts of a text around its first double colon. -/
def cutDoubleColon : Text → Option (Text × Text)
  | ':' :: ':' :: cs => some ([], cs)
  | c :: cs => (cutDoubleColon cs).map fun parts => (c :: parts.1, parts.2)
  | [] => none

/-- The parts of one side of a double colon; an empty side has none. -/
def colonParts (side : Text) : List Text :=
  if side.isEmpty then [] else Text.split ':' side

/-- The eight pieces of an IPv6 address. -/
def ipv6? (text : Text) : Option (List Nat) :=
  match cutDoubleColon text with
  | some (before, behind) => do
    let left ← ipv6Pieces false (colonParts before)
    let right ← ipv6Pieces true (colonParts behind)
    if left.length + right.length > 7 then none
    else some (left ++ List.replicate (8 - left.length - right.length) 0 ++ right)
  | none => do
    let pieces ← ipv6Pieces true (colonParts text)
    if pieces.length = 8 then some pieces else none

/-- A host between brackets. -/
def bracketed (text : Text) : Except UrlError Host :=
  if text.getLast? = some ']' then
    match ipv6? (text.drop 1).dropLast with
    | some pieces => .ok (.ipv6 pieces)
    | none => .error .invalidIpv6
  else .error .invalidIpv6

/-- A host of a special scheme: its percent-encoded bytes are decoded and its
letters become lower case. Of names in other scripts only the ASCII form is taken, and
what follows `xn--` in it is not checked. -/
def ofSpecial (text : Text) : Except UrlError Host :=
  if text.head? = some '[' then bracketed text
  else
    let name := Text.lowerAscii ((Text.percentDecode text).map fun b => Char.ofNat b.toNat)
    if name.any isForbidden then .error .invalidDomain
    else if name.isEmpty then .error .emptyHost
    else if endsInNumber name then
      match ipv4? name with
      | some address => .ok (.ipv4 address)
      | none => .error .invalidIpv4
    else .ok (.domain name)

/-- A host of any other scheme, kept as it is written. -/
def ofFlat (text : Text) : Except UrlError Host :=
  if text.head? = some '[' then bracketed text
  else if text.any isForbiddenInFlat then .error .invalidHostCharacter
  else .ok (.domain (Text.percentEncode (fun _ => false) text))

end Host

end HubRules
