import HubRules.Json.Parser
import HubRules.Template.Syntax

/-!
# Reading expressions

Paths, literals and calls at the head of a text. Reading gives what was found and
the text after it; where it gets stuck it gives the text from there on, which is
how an error finds its line.
-/

namespace HubRules.Template

/-- A blank between the parts of a tag. -/
def isBlank (c : Char) : Bool := c == ' ' || c == '\t' || c == '\n' || c == '\r'

def skipBlanks (text : Text) : Text := text.dropWhile isBlank

def isSymbol (c : Char) : Bool :=
  c.isAlphanum || c == '_' || c == '-' || c == '$' || c == ':' || c.toNat ≥ 0x80

/-- A name at the head of a text, and the text after it. -/
def name? (text : Text) : Option (Text × Text) :=
  let name := text.takeWhile isSymbol
  if name.isEmpty then none else some (name, text.drop name.length)

/-- What follows a word that is not the start of a longer name. -/
def afterWord? (word : String) (text : Text) : Option Text := do
  let rest ← Text.dropStart? word.toList text
  if rest.head?.any isSymbol then none else some rest

/-! ## Paths -/

/-- What follows a separator of the steps of a path. -/
def afterSeparator? : Text → Option Text
  | '/' :: rest => some rest
  | '.' :: rest => some rest
  | _ => none

/-- A step of a path: a name, or any text between brackets. -/
def step? (text : Text) : Option (Text × Text) :=
  match text with
  | '[' :: rest => Text.cut ']' rest
  | _ => name? text

/-- The further steps of a path, each after a separator. -/
def stepsFrom : Nat → Text → List Text × Text
  | 0, text => ([], text)
  | limit + 1, text =>
    match (afterSeparator? text).bind step? with
    | none => ([], text)
    | some (name, rest) =>
      let (names, rest) := stepsFrom limit rest
      (name :: names, rest)

/-- The levels that a path climbs at its start. -/
def climb : Text → Nat × Text
  | '.' :: '.' :: '/' :: rest | '.' :: '.' :: '.' :: rest =>
    let (levels, rest) := climb rest
    (levels + 1, rest)
  | text => (0, text)

/-- A path at the head of a text. The step `this` stays where it is. -/
def path? (text : Text) : Option (Path × Text) := do
  let here := ((Text.dropStart? "this".toList text).bind afterSeparator?).getD
    ((Text.dropStart? "./".toList text).getD text)
  let root? := (Text.dropStart? "@root".toList here).bind afterSeparator?
  let below := root?.getD here
  let lookup := Text.dropStart? ['@'] below
  let (levels, steps) := climb (lookup.getD below)
  let (first, rest) ← step? steps
  let (more, rest) := stepsFrom rest.length rest
  let names := ((first :: more).filter (· ≠ "this".toList)).map String.ofList
  let base : Base :=
    if root?.isSome then .root
    else if lookup.isSome then
      if names.isEmpty then .frame 0 else .locals levels
    else .frame levels
  return (⟨base, names, text.take (text.length - rest.length)⟩, rest)

/-! ## Literals -/

/-- What follows a string after its opening quote. -/
def stringEnd? (quote : Char) : Text → Option Text
  | [] => none
  | '\\' :: 'u' :: a :: b :: c :: d :: rest =>
    if [a, b, c, d].all (Json.Reader.hexValue? · |>.isSome) then stringEnd? quote rest else none
  | '\\' :: c :: rest =>
    if c == quote || ['\\', '/', 'b', 'f', 'n', 'r', 't'].contains c then stringEnd? quote rest
    else none
  | c :: rest =>
    if c == quote then some rest else if c == '\\' then none else stringEnd? quote rest

/-- What follows a number: digits, a fraction and an exponent, with no further name
character. -/
def numberEnd? (text : Text) : Option Text := do
  let digits (text : Text) : Option Text :=
    if text.head?.any Char.isDigit then some (text.dropWhile Char.isDigit) else none
  let unsigned (text : Text) : Text := (Text.dropStart? ['-'] text).getD text
  let rest ← digits (unsigned text)
  let rest := ((Text.dropStart? ['.'] rest).getD rest).dropWhile Char.isDigit
  let rest := ((Text.dropStart? ['E'] rest).bind fun rest => digits (unsigned rest)).getD rest
  if rest.head?.any isSymbol then none else some rest

mutual

/-- What follows a literal at the head of a text. -/
def literalEnd? : Nat → Text → Option Text
  | 0, _ => none
  | limit + 1, text =>
    match text with
    | '"' :: rest => stringEnd? '"' rest
    | '\'' :: rest => stringEnd? '\'' rest
    | '[' :: rest => listEnd? limit false ']' rest
    | '\x7b' :: rest => listEnd? limit true '\x7d' rest
    | _ =>
      (numberEnd? text).orElse fun _ => (afterWord? "null" text).orElse fun _ =>
        (afterWord? "true" text).orElse fun _ => afterWord? "false" text

/-- What follows an item of a list, or a member of an object. -/
def itemEnd? : Nat → Bool → Text → Option Text
  | 0, _, _ => none
  | limit + 1, false, text => literalEnd? limit text
  | limit + 1, true, text => do
    let rest ← match text with
      | '"' :: rest => stringEnd? '"' rest
      | '\'' :: rest => stringEnd? '\'' rest
      | _ => none
    let rest ← Text.dropStart? [':'] (skipBlanks rest)
    literalEnd? limit (skipBlanks rest)

/-- What follows a list after its opening bracket. -/
def listEnd? : Nat → Bool → Char → Text → Option Text
  | 0, _, _, _ => none
  | limit + 1, keyed, close, text =>
    let text := skipBlanks text
    itemsEnd? limit keyed close ((itemEnd? limit keyed text).getD text)

/-- What follows the further items of a list and its closing bracket. -/
def itemsEnd? : Nat → Bool → Char → Text → Option Text
  | 0, _, _, _ => none
  | limit + 1, keyed, close, text =>
    match skipBlanks text with
    | ',' :: rest => do
      let rest ← itemEnd? limit keyed (skipBlanks rest)
      itemsEnd? limit keyed close rest
    | c :: rest => if c == close then some rest else none
    | [] => none

end

/-- A literal at the head of a text, as it is written. -/
def literal? (text : Text) : Option (Text × Text) :=
  (literalEnd? (4 * text.length + 4) text).map fun rest =>
    (text.take (text.length - rest.length), rest)

/-- The value of a literal. A string between single quotes may hold double ones. -/
def literalValue? (text : Text) : Option Json :=
  let json := match text with
    | '\'' :: inner =>
      let plain := Text.replaceAll ['\\', '\''] ['\''] inner.dropLast
      '"' :: (Text.replaceAll ['"'] ['\\', '"'] plain ++ ['"'])
    | _ => text
  (Json.parse json).toOption

/-! ## Calls -/

/-- Words that are never an operand. -/
def isReserved (text : Text) : Bool :=
  (afterWord? "as" text).isSome || (afterWord? "else" text).isSome

/-- A key and its equals sign, and the text of its value. -/
def hashKey? (text : Text) : Option (Text × Text) := do
  let (key, rest) ← name? text
  let rest ← Text.dropStart? ['='] (skipBlanks rest)
  return (key, skipBlanks rest)

mutual

/-- An operand at the head of a text, if there is one. -/
def operand : Nat → Text → Except Text (Option (Expr Text × Text))
  | 0, text => .error text
  | limit + 1, text =>
    if isReserved text then .ok none
    else match literal? text with
      | some (written, rest) => .ok (some (.literal written, rest))
      | none =>
        match path? text with
        | some (path, rest) => .ok (some (.path path, rest))
        | none =>
          match text with
          | '(' :: inner => (enclosed limit inner).map some
          | _ => .ok none

/-- A call after its opening parenthesis: a name with operands, or a path that names
a helper. -/
def enclosed : Nat → Text → Except Text (Expr Text × Text)
  | 0, text => .error text
  | limit + 1, text => do
    let text := skipBlanks text
    let close (name : Text) (params : List (Expr Text)) (hash : List (String × Expr Text))
        (rest : Text) : Except Text (Expr Text × Text) :=
      match skipBlanks rest with
      | ')' :: after => .ok (.call name params hash, after)
      | stuck => .error stuck
    let named ← match name? text with
      | none => pure none
      | some (name, rest) => do
        let (params, hash, rest) ← operands limit rest
        pure (if params.isEmpty && hash.isEmpty then none else some (name, params, hash, rest))
    match named with
    | some (name, params, hash, rest) => close name params hash rest
    | none =>
      match path? text with
      | some (path, rest) => close path.text [] [] rest
      | none => .error text

/-- The operands and keyed operands from the head of a text on. -/
def operands : Nat → Text →
    Except Text (List (Expr Text) × List (String × Expr Text) × Text)
  | 0, text => .error text
  | limit + 1, text =>
    let start := skipBlanks text
    match hashKey? start with
    | some (key, value) => do
      match ← operand limit value with
      | none => .error value
      | some (expr, rest) => do
        let (params, hash, rest) ← operands limit rest
        return (params, (String.ofList key, expr) :: hash, rest)
    | none => do
      match ← operand limit start with
      | none => return ([], [], text)
      | some (expr, rest) => do
        let (params, hash, rest) ← operands limit rest
        return (expr :: params, hash, rest)

end

def call (text : Text) : Except Text (Call Text × Text) :=
  let start := skipBlanks text
  match name? start with
  | none => .error start
  | some (name, rest) => do
    let (params, hash, rest) ← operands (4 * rest.length + 4) rest
    return (⟨name, params, hash⟩, rest)

/-- What a tag without a block puts into the output. -/
def subject (text : Text) : Except Text (Subject Text × Text) := do
  let start := skipBlanks text
  match start with
  | '(' :: inner =>
    let (expr, rest) ← enclosed (4 * inner.length + 4) inner
    return (.computed expr, rest)
  | _ =>
    let named := match call start with
      | .ok (found, rest) =>
        if found.params.isEmpty && found.hash.isEmpty then .ok none else .ok (some (found, rest))
      | .error stuck => if stuck.length < start.length then .error stuck else .ok none
    match ← named with
    | some (found, rest) => return (.call found, rest)
    | none =>
      match path? start with
      | some (path, rest) => return (.path path, rest)
      | none => .error start

/-- The names that a block gives to its values: one or two of them after `as`. -/
def blockNames (text : Text) : List String × Text :=
  let found := do
    let rest ← Text.dropStart? "as".toList (skipBlanks text)
    let rest ← Text.dropStart? ['|'] (skipBlanks rest)
    let (first, rest) ← name? (skipBlanks rest)
    let (names, rest) := match name? (skipBlanks rest) with
      | some (second, rest) => ([first, second], rest)
      | none => ([first], rest)
    let rest ← Text.dropStart? ['|'] (skipBlanks rest)
    return (names.map String.ofList, rest)
  found.getD ([], text)

end HubRules.Template
