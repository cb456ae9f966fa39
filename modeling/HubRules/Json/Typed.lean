import HubRules.Json.Parser

/-!
# Reading typed JSON

Readers of texts, flags, lists and objects of a known shape. They go through the
text once: a value of the wrong shape is reported before malformed text behind
it. A value that nothing asks for is passed over with fewer checks.
-/

namespace HubRules.Json.Reader

/-- The fault of a value that is not what was expected; a scalar is read first,
and may be malformed itself. -/
def unexpected (expected : String) (r : Reader) : Fault :=
  match r.rest with
  | '[' :: _ => .mismatch (.type .sequence expected)
  | '\x7b' :: _ => .mismatch (.type .map expected)
  | _ =>
    match valueOver none r with
    | .ok (value, _) => .mismatch (.type (.ofJson value) expected)
    | .error fault => fault

def text (r : Reader) : Except Fault (String × Reader) :=
  let r := r.skipBlanks
  match r.rest with
  | '"' :: _ => r.quotedString
  | [] => .error (r.fault .endOfValue)
  | _ => .error (r.unexpected "a string")

def optionalText (r : Reader) : Except Fault (Option String × Reader) :=
  let r := r.skipBlanks
  match r.rest with
  | 'n' :: _ => (r.next.word "ull".toList).map fun r => (none, r)
  | _ => r.text.map fun (found, r) => (some found, r)

def flag (r : Reader) : Except Fault (Bool × Reader) :=
  let r := r.skipBlanks
  match r.rest with
  | [] => .error (r.fault .endOfValue)
  | 't' :: _ => (r.next.word "rue".toList).map fun r => (true, r)
  | 'f' :: _ => (r.next.word "alse".toList).map fun r => (false, r)
  | _ => .error (r.unexpected "a boolean")

def list {α : Type} (read : Reader → Except Fault (α × Reader)) (r : Reader) :
    Except Fault (List α × Reader) :=
  let r := r.skipBlanks
  match r.rest with
  | [] => .error (r.fault .endOfValue)
  | '[' :: _ => items read (r.rest.length + 1) true r.next
  | _ => .error (r.unexpected "a sequence")

/-- An object whose members `step` takes one by one. -/
def object {σ : Type} (expected : String)
    (step : σ → String → Reader → Except Fault (σ × Reader)) (init : σ) (r : Reader) :
    Except Fault (σ × Reader) :=
  let r := r.skipBlanks
  match r.rest with
  | [] => .error (r.fault .endOfValue)
  | '\x7b' :: _ => members step (r.rest.length + 1) true init r.next
  | _ => .error (r.unexpected expected)

def member {α : Type} (read : Reader → Except Fault (α × Reader)) (r : Reader) :
    Except Fault (α × Reader) := do
  read (← r.colon)

/-- The end of an array that stands for fields in order, all of which were read. -/
def endOfFields (r : Reader) : Except Fault Reader :=
  let r := r.skipBlanks
  match r.rest with
  | [] => .error (r.fault .endOfList)
  | ']' :: _ => .ok r.next
  | ',' :: _ =>
    let r := r.next.skipBlanks
    match r.rest with
    | ']' :: _ => .error (r.faultAhead .trailingComma)
    | _ => .error (r.faultAhead .trailingCharacters)
  | _ => .error (r.faultAhead .trailingCharacters)

/-! ## Values that nothing asks for -/

def ignoreDigits (r : Reader) : Reader := r.skip (r.rest.takeWhile Char.isDigit).length

/-- The reader behind the exponent of a number, from behind its `e`. -/
def ignoreExponent (r : Reader) : Except Fault Reader :=
  let r := match r.rest with
    | '+' :: _ | '-' :: _ => r.next
    | _ => r
  if r.rest.head?.any Char.isDigit then .ok r.ignoreDigits
  else .error (r.faultAhead .invalidNumber)

/-- The reader behind what may follow the digits of a number. -/
def ignoreExponentPart (r : Reader) : Except Fault Reader :=
  match r.rest with
  | 'e' :: _ | 'E' :: _ => ignoreExponent r.next
  | _ => .ok r

/-- The reader behind a number without its sign. -/
def ignoreNumber (r : Reader) : Except Fault Reader :=
  match r.rest.takeWhile Char.isDigit with
  | [] => .error (r.faultAhead .invalidNumber)
  | '0' :: _ :: _ => .error (r.next.faultAhead .invalidNumber)
  | _ =>
    let r := r.ignoreDigits
    match r.rest with
    | '.' :: _ =>
      let r := r.next
      if r.rest.head?.any Char.isDigit then ignoreExponentPart r.ignoreDigits
      else .error (r.faultAhead .invalidNumber)
    | _ => ignoreExponentPart r

/-- The reader behind a string, from behind its opening quote. -/
def ignoreString : Text → Position → Except Fault Reader
  | [], p => .error (.malformed .endOfString p)
  | c :: cs, p =>
    if c = '"' then .ok ⟨cs, p.after c⟩
    else if c = '\\' then
      let p := p.after c
      match cs with
      | [] => .error (.malformed .endOfString p)
      | 'u' :: cs =>
        let p := p.after 'u'
        match cs with
        | x1 :: x2 :: x3 :: x4 :: rest =>
          match hexValue4? x1 x2 x3 x4 with
          | none => .error (hexFault ⟨cs, p⟩)
          | some _ => ignoreString rest ⟨p.line, p.column + 4⟩
        | _ => .error (hexFault ⟨cs, p⟩)
      | e :: cs =>
        if (simpleEscape? e).isSome then ignoreString cs (p.after e)
        else .error (.malformed .invalidEscape (p.afterByte (e :: cs)))
    else if c.toNat < 32 then .error (.malformed .controlCharacter p)
    else ignoreString cs (p.after c)

/-- The reader behind the items of an array; every item but the first follows a
comma. -/
def ignoreItems (ignore : Reader → Except Fault Reader) : Nat → Reader → Except Fault Reader
  | 0, r => .error (r.fault .endOfList)
  | fuel + 1, r => do
    let r := (← ignore r).skipBlanks
    match r.rest with
    | [] => throw (r.fault .endOfList)
    | ']' :: _ => return r.next
    | ',' :: _ => ignoreItems ignore fuel r.next
    | _ => throw (r.faultAhead .expectedListEnd)

/-- The reader behind the members of an object; every member but the first
follows a comma. -/
def ignoreMembers (ignore : Reader → Except Fault Reader) : Nat → Reader → Except Fault Reader
  | 0, r => .error (r.fault .endOfObject)
  | fuel + 1, r => do
    let r := r.skipBlanks
    match r.rest with
    | [] => throw (r.fault .endOfObject)
    | '"' :: _ =>
      let r ← ignoreString r.next.rest r.next.place
      let r := (← ignore (← r.colon)).skipBlanks
      match r.rest with
      | [] => throw (r.fault .endOfObject)
      | '\x7d' :: _ => return r.next
      | ',' :: _ => ignoreMembers ignore fuel r.next
      | _ => throw (r.faultAhead .expectedObjectEnd)
    | _ => throw (r.faultAhead .keyNotString)

/-- The reader behind a value of any kind; the first argument bounds its depth. -/
def ignore : Nat → Reader → Except Fault Reader
  | 0, r => .error (r.fault .endOfValue)
  | fuel + 1, r =>
    let r := r.skipBlanks
    match r.rest with
    | [] => .error (r.fault .endOfValue)
    | 'n' :: _ => r.next.word "ull".toList
    | 't' :: _ => r.next.word "rue".toList
    | 'f' :: _ => r.next.word "alse".toList
    | '"' :: _ => ignoreString r.next.rest r.next.place
    | '-' :: _ => ignoreNumber r.next
    | '[' :: _ =>
      let inside := r.next.skipBlanks
      match inside.rest with
      | [] => .error (inside.fault .endOfList)
      | ']' :: _ => .ok inside.next
      | _ => ignoreItems (ignore fuel) (r.rest.length + 1) inside
    | '\x7b' :: _ =>
      let inside := r.next.skipBlanks
      match inside.rest with
      | [] => .error (inside.fault .endOfObject)
      | '\x7d' :: _ => .ok inside.next
      | _ => ignoreMembers (ignore fuel) (r.rest.length + 1) inside
    | c :: _ =>
      if c.isDigit then ignoreNumber r else .error (r.faultAhead .expectedValue)

/-- The reader behind the value of a member that nothing asks for. -/
def ignoreMember (r : Reader) : Except Fault Reader := do
  ignore (r.rest.length + 1) (← r.colon)

end HubRules.Json.Reader
