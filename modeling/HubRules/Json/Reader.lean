import HubRules.Json.Mismatch

/-!
# Reading JSON text

A reader is what is left of a document and the place reached in it. This module
holds the faults of malformed text with their places, the scanners of words,
numbers and strings, and the walks over arrays and objects that both the
untyped parser and the typed readers use. Places count lines from one and, on a
line, the bytes consumed.
-/

namespace HubRules.Json

/-- A place in a document: the line, from one, and the bytes consumed on it. -/
structure Position where
  line : Nat
  column : Nat
  deriving DecidableEq, Repr

namespace Position

def start : Position := ⟨1, 0⟩

def after (p : Position) (c : Char) : Position :=
  if c = '\n' then ⟨p.line + 1, 0⟩ else ⟨p.line, p.column + c.utf8Size⟩

/-- The place after the first byte of what is left. -/
def afterByte (p : Position) : Text → Position
  | [] => p
  | c :: _ => if c = '\n' then ⟨p.line + 1, 0⟩ else ⟨p.line, p.column + 1⟩

/-- The place after a number of bytes of what is left. -/
def afterBytes (p : Position) : Nat → Text → Position
  | 0, _ => p
  | _, [] => p
  | n, c :: cs =>
    if c.utf8Size ≤ n then (p.after c).afterBytes (n - c.utf8Size) cs
    else ⟨p.line, p.column + n⟩

def afterAll (p : Position) (text : Text) : Position := text.foldl after p

end Position

/-- How a text fails to be JSON. -/
inductive Malformation where
  | endOfValue
  | endOfList
  | endOfObject
  | endOfString
  | expectedColon
  | expectedListEnd
  | expectedObjectEnd
  | expectedWord
  | expectedValue
  | keyNotString
  | invalidEscape
  | invalidNumber
  | numberOutOfRange
  | loneSurrogate
  | brokenSurrogatePair
  | controlCharacter
  | trailingComma
  | trailingCharacters
  | tooDeep
  deriving DecidableEq, Repr

def Malformation.describe : Malformation → String
  | .endOfValue => "EOF while parsing a value"
  | .endOfList => "EOF while parsing a list"
  | .endOfObject => "EOF while parsing an object"
  | .endOfString => "EOF while parsing a string"
  | .expectedColon => "expected `:`"
  | .expectedListEnd => "expected `,` or `]`"
  | .expectedObjectEnd => "expected `,` or `\x7d`"
  | .expectedWord => "expected ident"
  | .expectedValue => "expected value"
  | .keyNotString => "key must be a string"
  | .invalidEscape => "invalid escape"
  | .invalidNumber => "invalid number"
  | .numberOutOfRange => "number out of range"
  | .loneSurrogate => "lone leading surrogate in hex escape"
  | .brokenSurrogatePair => "unexpected end of hex escape"
  | .controlCharacter => "control character (\\u0000-\\u001F) found while parsing a string"
  | .trailingComma => "trailing comma"
  | .trailingCharacters => "trailing characters"
  | .tooDeep => "recursion limit exceeded"

/-- Why a document could not be read. -/
inductive Fault where
  /-- The text is not JSON from this place on. -/
  | malformed (cause : Malformation) (place : Position)
  /-- A value does not have the expected shape. -/
  | mismatch (cause : Mismatch)
  deriving DecidableEq, Repr

def Fault.message : Fault → String
  | .malformed cause place => s!"{cause.describe} at line {place.line} column {place.column}"
  | .mismatch cause => cause.message

/-- What is left of a document, and the place reached. -/
structure Reader where
  rest : Text
  place : Position

namespace Reader

def ofText (text : Text) : Reader := ⟨text, .start⟩

/-- A fault at the place reached. -/
def fault (r : Reader) (cause : Malformation) : Fault := .malformed cause r.place

/-- A fault at the next byte. -/
def faultAhead (r : Reader) (cause : Malformation) : Fault :=
  .malformed cause (r.place.afterByte r.rest)

def next (r : Reader) : Reader :=
  match r.rest with
  | [] => r
  | c :: cs => ⟨cs, r.place.after c⟩

/-- The reader behind `n` characters of one byte each, none of them a line end. -/
def skip (r : Reader) (n : Nat) : Reader :=
  ⟨r.rest.drop n, ⟨r.place.line, r.place.column + n⟩⟩

def isBlank (c : Char) : Bool := c = ' ' || c = '\n' || c = '\t' || c = '\r'

def skipBlanks (r : Reader) : Reader :=
  let blanks := r.rest.takeWhile isBlank
  ⟨r.rest.dropWhile isBlank, r.place.afterAll blanks⟩

/-! ## Words and numbers -/

/-- The reader behind the rest of a word whose first letter was seen. -/
def word (r : Reader) : Text → Except Fault Reader
  | [] => .ok r
  | c :: cs =>
    match r.rest with
    | [] => .error (r.fault .endOfValue)
    | d :: _ => if d = c then r.next.word cs else .error (r.faultAhead .expectedWord)

def maxUnsigned : Nat := Nat.pow 2 64 - 1

/-- Appends digits to a number while it stays within `limit`; gives the number
and how many digits were taken. -/
def appendDigits (limit : Nat) : Nat → Nat → Text → Nat × Nat
  | value, taken, [] => (value, taken)
  | value, taken, c :: cs =>
    let grown := value * 10 + (c.toNat - '0'.toNat)
    if grown > limit then (value, taken) else appendDigits limit grown (taken + 1) cs

/-- `x · 10 ^ e` by at most one rounded operation per factor of `1e308`; `none`
beyond the greatest double. -/
def scaleByTen (x : Binary64) (e : Int) : Nat → Option Binary64
  | 0 => some x
  | fuel + 1 =>
    if e.natAbs ≤ 308 then
      (Binary64.ofPowerOfTen e.natAbs).bind fun p => if e ≥ 0 then x.mul p else x.div p
    else if x.isZero then some x
    else if e ≥ 0 then none
    else
      ((Binary64.ofPowerOfTen 308).bind x.div).bind fun y => scaleByTen y (e + 308) fuel

/-- The double of a sign, a significand and a decimal exponent. -/
def float (negative : Bool) (significand : Nat) (e : Int) (r : Reader) :
    Except Fault (Number × Reader) :=
  match (Binary64.ofNat significand).bind fun x => scaleByTen x e 8 with
  | some x => .ok (.float (if negative then x.neg else x), r)
  | none => .error (r.fault .numberOutOfRange)

/-- The exponent part, from behind its `e`. -/
def exponentPart (negative : Bool) (significand : Nat) (e : Int) (r : Reader) :
    Except Fault (Number × Reader) :=
  let (down, r) : Bool × Reader := match r.rest with
    | '+' :: _ => (false, r.next)
    | '-' :: _ => (true, r.next)
    | _ => (false, r)
  let digits := r.rest.takeWhile Char.isDigit
  if digits.isEmpty then
    .error (if r.rest.isEmpty then r.fault .endOfValue else r.faultAhead .invalidNumber)
  else
    let (size, taken) := appendDigits (Nat.pow 2 31 - 1) 0 0 digits
    if taken < digits.length then
      if significand ≠ 0 ∧ ¬ down then .error ((r.skip (taken + 1)).fault .numberOutOfRange)
      else .ok (.float (Binary64.zero negative), r.skip digits.length)
    else
      float negative significand (if down then e - size else e + size) (r.skip digits.length)

/-- What may follow the digits: an exponent, or the end of the number. -/
def fractionEnd (negative : Bool) (significand : Nat) (e : Int) (r : Reader) :
    Except Fault (Number × Reader) :=
  match r.rest with
  | 'e' :: _ | 'E' :: _ => exponentPart negative significand e r.next
  | _ => float negative significand e r

/-- The fraction part, from behind its point. -/
def fractionPart (negative : Bool) (significand : Nat) (e : Int) (r : Reader) :
    Except Fault (Number × Reader) :=
  let digits := r.rest.takeWhile Char.isDigit
  if digits.isEmpty then
    .error (if r.rest.isEmpty then r.fault .endOfValue else r.faultAhead .invalidNumber)
  else
    let (significand, taken) := appendDigits maxUnsigned significand 0 digits
    fractionEnd negative significand (e - taken) (r.skip digits.length)

/-- An integer without fraction and exponent; `-0` and what does not fit 64 bits
is a double. -/
def integer (negative : Bool) (value : Nat) : Number :=
  if ¬ negative then .integer value
  else if value = 0 ∨ value > Nat.pow 2 63 then
    .float (((Binary64.ofNat value).getD (Binary64.zero false)).neg)
  else .integer (-value)

def unsignedNumber (negative : Bool) (r : Reader) : Except Fault (Number × Reader) :=
  let digits := r.rest.takeWhile Char.isDigit
  match digits with
  | [] => .error (if r.rest.isEmpty then r.fault .endOfValue else r.faultAhead .invalidNumber)
  | '0' :: _ :: _ => .error (r.next.faultAhead .invalidNumber)
  | _ =>
    let (value, taken) := appendDigits maxUnsigned 0 0 digits
    let dropped := digits.length - taken
    let r := r.skip digits.length
    match r.rest with
    | '.' :: _ => fractionPart negative value dropped r.next
    | 'e' :: _ | 'E' :: _ => exponentPart negative value dropped r.next
    | _ =>
      if dropped = 0 then .ok (integer negative value, r) else float negative value dropped r

/-! ## Strings -/

def hexValue? (c : Char) : Option Nat :=
  if c.isDigit then some (c.toNat - '0'.toNat)
  else if 'a' ≤ c ∧ c ≤ 'f' then some (c.toNat - 'a'.toNat + 10)
  else if 'A' ≤ c ∧ c ≤ 'F' then some (c.toNat - 'A'.toNat + 10)
  else none

def hexValue4? (a b c d : Char) : Option Nat := do
  let a ← hexValue? a
  let b ← hexValue? b
  let c ← hexValue? c
  let d ← hexValue? d
  return ((a * 16 + b) * 16 + c) * 16 + d

def byteLength (text : Text) : Nat := text.foldl (fun n c => n + c.utf8Size) 0

/-- The fault of four bytes that are not hexadecimal digits. -/
def hexFault (r : Reader) : Fault :=
  if byteLength r.rest < 4 then .malformed .endOfString (r.place.afterAll r.rest)
  else .malformed .invalidEscape (r.place.afterBytes 4 r.rest)

def simpleEscape? : Char → Option Char
  | '"' => some '"'
  | '\\' => some '\\'
  | '/' => some '/'
  | 'b' => some '\x08'
  | 'f' => some '\x0c'
  | 'n' => some '\n'
  | 'r' => some '\r'
  | 't' => some '\t'
  | _ => none

/-- Puts a character in front of a string that was read. -/
def prepend (c : Char) (reading : Except Fault (Text × Reader)) : Except Fault (Text × Reader) :=
  reading.map fun (text, r) => (c :: text, r)

/-- A string from behind its opening quote, through its closing one. -/
def stringBody : Text → Position → Except Fault (Text × Reader)
  | [], p => .error (.malformed .endOfString p)
  | c :: cs, p =>
    if c = '"' then .ok ([], ⟨cs, p.after c⟩)
    else if c = '\\' then
      let p := p.after c
      match cs with
      | [] => .error (.malformed .endOfString p)
      | 'u' :: cs =>
        let p := p.after 'u'
        match cs with
        | x1 :: x2 :: x3 :: x4 :: rest =>
          match hexValue4? x1 x2 x3 x4 with
          | none => .error (hexFault ⟨cs, p⟩)
          | some unit =>
            let p : Position := ⟨p.line, p.column + 4⟩
            if 0xDC00 ≤ unit ∧ unit ≤ 0xDFFF then .error (.malformed .loneSurrogate p)
            else if unit < 0xD800 ∨ unit > 0xDBFF then
              prepend (Char.ofNat unit) (stringBody rest p)
            else
              match rest with
              | [] => .error (.malformed .endOfString p)
              | '\\' :: [] => .error (.malformed .endOfString (p.after '\\'))
              | '\\' :: 'u' :: more =>
                let p : Position := ⟨p.line, p.column + 2⟩
                match more with
                | y1 :: y2 :: y3 :: y4 :: rest =>
                  match hexValue4? y1 y2 y3 y4 with
                  | none => .error (hexFault ⟨more, p⟩)
                  | some low =>
                    let p : Position := ⟨p.line, p.column + 4⟩
                    if low < 0xDC00 ∨ low > 0xDFFF then .error (.malformed .loneSurrogate p)
                    else
                      prepend (Char.ofNat ((unit - 0xD800) * 0x400 + (low - 0xDC00) + 0x10000))
                        (stringBody rest p)
                | _ => .error (hexFault ⟨more, p⟩)
              | '\\' :: other =>
                .error (.malformed .brokenSurrogatePair ((p.after '\\').afterByte other))
              | other => .error (.malformed .brokenSurrogatePair (p.afterByte other))
        | _ => .error (hexFault ⟨cs, p⟩)
      | e :: cs =>
        match simpleEscape? e with
        | some d => prepend d (stringBody cs (p.after e))
        | none => .error (.malformed .invalidEscape (p.afterByte (e :: cs)))
    else if c.toNat < 32 then .error (.malformed .controlCharacter (p.afterByte (c :: cs)))
    else prepend c (stringBody cs (p.after c))

/-- A string whose opening quote is next. -/
def quotedString (r : Reader) : Except Fault (String × Reader) :=
  (stringBody r.next.rest r.next.place).map fun (text, r) => (String.ofList text, r)

/-! ## Containers -/

def colon (r : Reader) : Except Fault Reader :=
  let r := r.skipBlanks
  match r.rest with
  | [] => .error (r.fault .endOfObject)
  | ':' :: _ => .ok r.next
  | _ => .error (r.faultAhead .expectedColon)

/-- The reader at the next item of an array, or `none` behind its end. -/
def nextItem (first : Bool) (r : Reader) : Except Fault (Option Reader × Reader) :=
  let r := r.skipBlanks
  match r.rest with
  | [] => .error (r.fault .endOfList)
  | ']' :: _ => .ok (none, r.next)
  | c :: _ =>
    if first then .ok (some r, r)
    else if c = ',' then
      let r := r.next.skipBlanks
      match r.rest with
      | [] => .error (r.fault .endOfValue)
      | ']' :: _ => .error (r.faultAhead .trailingComma)
      | _ => .ok (some r, r)
    else .error (r.faultAhead .expectedListEnd)

/-- The items of an array behind its opening bracket. The first argument bounds
the number of items; no array has more than it has characters. -/
def items {α : Type} (read : Reader → Except Fault (α × Reader)) :
    Nat → Bool → Reader → Except Fault (List α × Reader)
  | 0, _, r => .error (r.fault .endOfList)
  | fuel + 1, first, r => do
    let (item, r) ← nextItem first r
    match item with
    | none => return ([], r)
    | some r =>
      let (value, r) ← read r
      let (values, r) ← items read fuel false r
      return (value :: values, r)

/-- The key of the next member of an object, or `none` behind its end. -/
def nextKey (first : Bool) (r : Reader) : Except Fault (Option String × Reader) :=
  let r := r.skipBlanks
  match r.rest with
  | [] => .error (r.fault .endOfObject)
  | '\x7d' :: _ => .ok (none, r.next)
  | c :: _ =>
    if first then
      if c = '"' then r.quotedString.map fun (key, r) => (some key, r)
      else .error (r.faultAhead .keyNotString)
    else if c = ',' then
      let r := r.next.skipBlanks
      match r.rest with
      | [] => .error (r.fault .endOfValue)
      | '"' :: _ => r.quotedString.map fun (key, r) => (some key, r)
      | '\x7d' :: _ => .error (r.faultAhead .trailingComma)
      | _ => .error (r.faultAhead .keyNotString)
    else .error (r.faultAhead .expectedObjectEnd)

/-- Folds `step` over the members of an object behind its opening brace. `step`
gets the key and the reader in front of the colon. -/
def members {σ : Type} (step : σ → String → Reader → Except Fault (σ × Reader)) :
    Nat → Bool → σ → Reader → Except Fault (σ × Reader)
  | 0, _, _, r => .error (r.fault .endOfObject)
  | fuel + 1, first, state, r => do
    let (key, r) ← nextKey first r
    match key with
    | none => return (state, r)
    | some key =>
      let (state, r) ← step state key r
      members step fuel false state r

end Reader

end HubRules.Json
