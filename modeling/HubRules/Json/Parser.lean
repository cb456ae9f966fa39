import HubRules.Json.Reader

/-!
# Parsing JSON

The untyped parser. Containers nest at most 127 deep, which is also what the
recursion is on.
-/

namespace HubRules.Json

namespace Reader

def maxDepth : Nat := 127

/-- A value whose containers hold what `inner` reads; no containers are allowed
where there is no `inner`. -/
def valueOver (inner : Option (Reader → Except Fault (Json × Reader))) (r : Reader) :
    Except Fault (Json × Reader) :=
  let r := r.skipBlanks
  match r.rest with
  | [] => .error (r.fault .endOfValue)
  | 'n' :: _ => (r.next.word "ull".toList).map fun r => (.null, r)
  | 't' :: _ => (r.next.word "rue".toList).map fun r => (.bool true, r)
  | 'f' :: _ => (r.next.word "alse".toList).map fun r => (.bool false, r)
  | '"' :: _ => r.quotedString.map fun (text, r) => (.string text, r)
  | '-' :: _ => (unsignedNumber true r.next).map fun (n, r) => (.number n, r)
  | '[' :: _ =>
    match inner with
    | none => .error (r.faultAhead .tooDeep)
    | some read => (items read (r.rest.length + 1) true r.next).map fun (values, r) =>
        (.array values, r)
  | '\x7b' :: _ =>
    match inner with
    | none => .error (r.faultAhead .tooDeep)
    | some read =>
      (members (fun (found : Members) key r => do
          let (value, r) ← read (← r.colon)
          return (found.set key value, r)) (r.rest.length + 1) true [] r.next).map fun (found, r) =>
        (.object found, r)
  | c :: _ =>
    if c.isDigit then (unsignedNumber false r).map fun (n, r) => (.number n, r)
    else .error (r.faultAhead .expectedValue)

/-- A value with containers of at most a depth. -/
def value : Nat → Reader → Except Fault (Json × Reader)
  | 0 => valueOver none
  | depth + 1 => valueOver (some (value depth))

/-- Only blanks may follow a document. -/
def finish (r : Reader) : Except Fault Unit :=
  let r := r.skipBlanks
  if r.rest.isEmpty then .ok () else .error (r.faultAhead .trailingCharacters)

/-- Reads a whole text with a reader of its kind. -/
def whole {α : Type} (read : Reader → Except Fault (α × Reader)) (text : Text) :
    Except Fault α := do
  let (result, r) ← read (.ofText text)
  r.finish
  return result

end Reader

def parse (text : Text) : Except Fault Json := Reader.whole (Reader.value Reader.maxDepth) text

end HubRules.Json
