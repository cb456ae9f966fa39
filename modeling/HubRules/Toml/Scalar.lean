import HubRules.Json.Reader
import HubRules.Toml.Basic

/-!
# Scalars of TOML

Keys, strings, numbers and dates at the head of a text.
-/

namespace HubRules.Toml

def isSpace (c : Char) : Bool := c == ' ' || c == '\t'

def skipSpace (text : Text) : Text := text.dropWhile isSpace

/-- Whether a character may stand in a string or comment: all but the controls, of
which only the tab may. -/
def isPrintable (c : Char) : Bool := c == '\t' || (c.toNat ≥ 32 && c.toNat != 127)

def afterLineEnd? : Text → Option Text
  | '\n' :: rest => some rest
  | '\r' :: '\n' :: rest => some rest
  | _ => none

/-! ## Strings -/

/-- The character of a number, if there is one. -/
def scalarChar? (n : Nat) : Option Char :=
  if n < 0xD800 || (0xDFFF < n && n < 0x110000) then some (Char.ofNat n) else none

/-- The number that hexadecimal digits stand for. -/
def hexNumber? (digits : Text) : Option Nat :=
  digits.foldlM (fun n c => (Json.Reader.hexValue? c).map (16 * n + ·)) 0

/-- What an escape stands for that is more than its letter. -/
def simpleEscape? : Char → Option Char
  | 'b' => some '\x08'
  | 't' => some '\t'
  | 'n' => some '\n'
  | 'f' => some '\x0c'
  | 'r' => some '\r'
  | 'e' => some '\x1b'
  | '"' => some '"'
  | '\\' => some '\\'
  | _ => none

/-- An escape after its backslash: the character, and how many characters it takes. -/
def escape? (text : Text) : Option (Char × Nat) := do
  let numbered (count : Nat) (rest : Text) : Option (Char × Nat) := do
    let digits := rest.take count
    if digits.length < count then none
    else return (← scalarChar? (← hexNumber? digits), count + 1)
  match text with
  | 'x' :: rest => numbered 2 rest
  | 'u' :: rest => numbered 4 rest
  | 'U' :: rest => numbered 8 rest
  | c :: _ => return (← simpleEscape? c, 1)
  | [] => none

/-- A string on one line after its opening quote; `skip` characters belong to an
escape. -/
def stringFrom (quote : Char) (escapes : Bool) : Nat → Text → Option (Text × Text)
  | _, [] => none
  | skip + 1, _ :: cs => stringFrom quote escapes skip cs
  | 0, c :: cs =>
    if c == quote then some ([], cs)
    else if c == '\\' && escapes then do
      let (found, length) ← escape? cs
      let (text, rest) ← stringFrom quote escapes length cs
      return (found :: text, rest)
    else if isPrintable c then do
      let (text, rest) ← stringFrom quote escapes 0 cs
      return (c :: text, rest)
    else none

/-- How many characters a line end takes, and all blanks and line ends after it, if
only blanks come before it. -/
def continuation? (text : Text) : Option Nat :=
  let indented := skipSpace text
  (afterLineEnd? indented).map fun rest =>
    text.length - (rest.dropWhile fun c => isSpace c || c == '\n' || c == '\r').length

/-- How a string on several lines ends: with three quotes, before which two more may
stand. -/
def closing? (quote : Char) (text : Text) : Option (Text × Text) :=
  let quotes := text.takeWhile (· == quote)
  if quotes.length < 3 then none
  else
    let count := min quotes.length 5
    some (List.replicate (count - 3) quote, text.drop count)

/-- A string on several lines after its opening quotes. -/
def linesFrom (quote : Char) (escapes : Bool) : Nat → Text → Option (Text × Text)
  | _, [] => none
  | skip + 1, _ :: cs => linesFrom quote escapes skip cs
  | 0, c :: cs =>
    match closing? quote (c :: cs) with
    | some (text, rest) => some (text, rest)
    | none =>
      if c == '\\' && escapes then
        match continuation? cs with
        | some length => linesFrom quote escapes length cs
        | none => do
          let (found, length) ← escape? cs
          let (text, rest) ← linesFrom quote escapes length cs
          return (found :: text, rest)
      else if isPrintable c || c == '\n' || (c == '\r' && cs.head? == some '\n') then do
        let (text, rest) ← linesFrom quote escapes 0 cs
        return (c :: text, rest)
      else none

def string? (text : Text) : Option (Text × Text) :=
  let lines (quote : Char) (escapes : Bool) (rest : Text) : Option (Text × Text) :=
    linesFrom quote escapes 0 ((afterLineEnd? rest).getD rest)
  match text with
  | '"' :: '"' :: '"' :: rest => lines '"' true rest
  | '\'' :: '\'' :: '\'' :: rest => lines '\'' false rest
  | '"' :: rest => stringFrom '"' true 0 rest
  | '\'' :: rest => stringFrom '\'' false 0 rest
  | _ => none

/-! ## Keys -/

def isBareKey (c : Char) : Bool := c.isAlphanum || c == '_' || c == '-'

def simpleKey? (text : Text) : Option (Text × Text) :=
  match text with
  | '"' :: rest => stringFrom '"' true 0 rest
  | '\'' :: rest => stringFrom '\'' false 0 rest
  | _ =>
    let key := text.takeWhile isBareKey
    if key.isEmpty then none else some (key, text.drop key.length)

def dottedKeyFrom : Nat → Text → Option (List String × Text)
  | 0, _ => none
  | limit + 1, text => do
    let (key, rest) ← simpleKey? (skipSpace text)
    match skipSpace rest with
    | '.' :: more =>
      let (keys, rest) ← dottedKeyFrom limit more
      return (String.ofList key :: keys, rest)
    | rest => return ([String.ofList key], rest)

/-- Keys with dots between them, and the text after them and blanks. -/
def dottedKey? (text : Text) : Option (List String × Text) :=
  dottedKeyFrom (text.length + 1) text

/-! ## Numbers and dates -/

/-- Whether a text is digits, which underscores may separate. -/
def isDigits (isDigit : Char → Bool) (text : Text) : Bool :=
  (Text.split '_' text).all fun part => !part.isEmpty && part.all isDigit

def unsigned : Text → Text
  | '+' :: rest => rest
  | '-' :: rest => rest
  | rest => rest

/-- Whether a text is a decimal integer: digits that begin with zero only if there
are no others. -/
def isDecimal (text : Text) : Bool :=
  isDigits Char.isDigit text && (text.length == 1 || text.head? != some '0')

/-- Whether a text is an integer in a base other than ten. -/
def isBasedInteger : Text → Bool
  | '0' :: 'x' :: digits => isDigits (fun c => (Json.Reader.hexValue? c).isSome) digits
  | '0' :: 'o' :: digits => isDigits (fun c => '0' ≤ c && c ≤ '7') digits
  | '0' :: 'b' :: digits => isDigits (fun c => c == '0' || c == '1') digits
  | _ => false

def isNumber (text : Text) : Bool :=
  let body := unsigned text
  let special := body == "inf".toList || body == "nan".toList
  let mantissa := body.takeWhile fun c => c != 'e' && c != 'E'
  let exponent := body.drop mantissa.length
  let exponentFits := exponent.isEmpty || isDigits Char.isDigit (unsigned exponent.tail)
  let mantissaFits := match Text.cut '.' mantissa with
    | none => isDecimal mantissa
    | some (whole, fraction) => isDecimal whole && isDigits Char.isDigit fraction
  special || isBasedInteger text || (mantissaFits && exponentFits)

def twoDigits? : Text → Option Nat
  | [a, b] =>
    if a.isDigit && b.isDigit then some (10 * (a.toNat - '0'.toNat) + (b.toNat - '0'.toNat))
    else none
  | _ => none

/-- Whether a number of two digits lies within bounds. -/
def isWithin (least greatest : Nat) (text : Text) : Bool :=
  (twoDigits? text).any fun n => least ≤ n && n ≤ greatest

def daysOf (year month : Nat) : Nat :=
  if month == 2 then
    if year % 4 == 0 && (year % 100 != 0 || year % 400 == 0) then 29 else 28
  else if [4, 6, 9, 11].contains month then 30 else 31

def isDate (text : Text) : Bool :=
  match Text.split '-' text with
  | [year, month, day] =>
    year.length == 4 && year.all Char.isDigit && isWithin 1 12 month
      && isWithin 1 (daysOf ((hexNumber? year).getD 0) ((twoDigits? month).getD 0)) day
  | _ => false

/-- Whether a text is a time of day. The seconds may be left out. -/
def isTime (text : Text) : Bool :=
  match Text.split ':' text with
  | [hour, minute] => isWithin 0 23 hour && isWithin 0 59 minute
  | [hour, minute, second] =>
    let (whole, fraction) := match Text.cut '.' second with
      | some (whole, fraction) => (whole, some fraction)
      | none => (second, none)
    isWithin 0 23 hour && isWithin 0 59 minute && isWithin 0 60 whole
      && fraction.all fun digits => !digits.isEmpty && digits.all Char.isDigit
  | _ => false

/-- Whether a text is an offset from universal time, or a time with one. -/
def isTimeWithOffset (text : Text) : Bool :=
  let time := text.takeWhile fun c => c != 'Z' && c != 'z' && c != '+' && c != '-'
  let isOffset := match text.drop time.length with
    | [] => true
    | ['Z'] | ['z'] => true
    | _ :: offset =>
      match Text.split ':' offset with
      | [hour, minute] => isWithin 0 23 hour && isWithin 0 59 minute
      | _ => false
  isTime time && isOffset

def isDateTime (text : Text) : Bool :=
  isDate text || isTime text
    || (isDate (text.take 10)
      && (match text.drop 10 with
        | c :: time => (c == 'T' || c == 't' || c == ' ') && isTimeWithOffset time
        | [] => false))

/-- A character of a value that is no string and no container. -/
def isScalarChar (c : Char) : Bool :=
  c.isAlphanum || c == '_' || c == '+' || c == '-' || c == '.' || c == ':'

/-- A truth value, number or date at the head of a text. -/
def bareScalar? (text : Text) : Option (Toml × Text) :=
  let word := text.takeWhile isScalarChar
  let rest := text.drop word.length
  let dated := match rest with
    | ' ' :: more =>
      let time := more.takeWhile isScalarChar
      if isDate word && isTimeWithOffset time then some (more.drop time.length) else none
    | _ => none
  if let some rest := dated then some (.date, rest)
  else if word == "true".toList then some (.boolean true, rest)
  else if word == "false".toList then some (.boolean false, rest)
  else if isNumber word then some (.number, rest)
  else if isDateTime word then some (.date, rest)
  else none

end HubRules.Toml
