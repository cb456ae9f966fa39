import HubRules.Toml.Scalar

/-!
# Parsing TOML

Values, and the lines of a document: keys with values, and headers that begin the
table to which the keys after them belong.
-/

namespace HubRules.Toml

def skipComment? (text : Text) : Option Text :=
  match skipSpace text with
  | '#' :: rest =>
    let comment := rest.takeWhile fun c => c != '\n' && c != '\r'
    if comment.all isPrintable then some (rest.drop comment.length) else none
  | rest => some rest

/-- The text after blanks, comments and line ends. -/
def skipLinesFrom : Nat → Text → Option Text
  | 0, text => some text
  | limit + 1, text => do
    let rest ← skipComment? text
    match afterLineEnd? rest with
    | some next => skipLinesFrom limit next
    | none => return rest

/-- The text after blanks, comments and line ends. -/
def skipLines? (text : Text) : Option Text := skipLinesFrom (text.length + 1) text

mutual

def value? : Nat → Text → Option (Toml × Text)
  | 0, _ => none
  | limit + 1, text =>
    match text with
    | '[' :: rest => do
      let (items, rest) ← items? limit rest
      return (.array items, rest)
    | '\x7b' :: rest => do
      let (members, rest) ← members? limit [] rest
      return (.table .inline_ members, rest)
    | _ =>
      match string? text with
      | some (found, rest) => some (.string (String.ofList found), rest)
      | none => bareScalar? text

/-- The items of an array and its closing bracket. The last item may be followed by a
comma, and lines may end between items. -/
def items? : Nat → Text → Option (List Toml × Text)
  | 0, _ => none
  | limit + 1, text => do
    match ← skipLines? text with
    | ']' :: rest => return ([], rest)
    | text =>
      let (item, rest) ← value? limit text
      match ← skipLines? rest with
      | ',' :: rest =>
        let (items, rest) ← items? limit rest
        return (item :: items, rest)
      | ']' :: rest => return ([item], rest)
      | _ => none

/-- The members of a table between braces, after those read already, and its closing
brace. The last member may be followed by a comma, and lines may end between members. -/
def members? : Nat → Table → Text → Option (Table × Text)
  | 0, _, _ => none
  | limit + 1, read, text => do
    match ← skipLines? text with
    | '\x7d' :: rest => return (read, rest)
    | text =>
      let (keys, rest) ← dottedKey? text
      let rest ← Text.dropStart? ['='] rest
      let (found, rest) ← value? limit (skipSpace rest)
      let read ← read.addDotted? keys found
      match ← skipLines? rest with
      | ',' :: rest => members? limit read rest
      | '\x7d' :: rest => return (read, rest)
      | _ => none

end

/-- A document while it is read: its tables, and the keys of the last header. -/
structure Document where
  root : Table
  header : List String

/-- The end of a line, or of the text, after blanks and a comment. -/
def lineEnd? (text : Text) : Option Text := do
  let rest ← skipComment? text
  if rest.isEmpty then some [] else afterLineEnd? rest

def Document.line? (document : Document) (text : Text) : Option (Document × Text) := do
  match skipSpace text with
  | '[' :: '[' :: rest =>
    let (keys, rest) ← dottedKey? rest
    let rest ← Text.dropStart? [']', ']'] rest
    return (⟨← document.root.beginNext? keys, keys⟩, ← lineEnd? rest)
  | '[' :: rest =>
    let (keys, rest) ← dottedKey? rest
    let rest ← Text.dropStart? [']'] rest
    return (⟨← document.root.begin? keys, keys⟩, ← lineEnd? rest)
  | start =>
    let (keys, rest) ← dottedKey? start
    let rest ← Text.dropStart? ['='] rest
    let rest := skipSpace rest
    let (found, rest) ← value? (4 * rest.length + 4) rest
    let root ← document.root.change? (·.addDotted? keys found) document.header
    return ({ document with root }, ← lineEnd? rest)

def Document.linesFrom (document : Document) : Nat → Text → Option Table
  | 0, _ => none
  | limit + 1, text => do
    match ← skipLines? text with
    | [] => return document.root
    | text =>
      let (document, rest) ← document.line? text
      document.linesFrom limit rest

/-- Parses a document; a byte order mark may stand before it. -/
def parse? (text : Text) : Option Table :=
  let text := (Text.dropStart? ['\uFEFF'] text).getD text
  Document.linesFrom ⟨[], []⟩ (text.length + 1) text

end HubRules.Toml
