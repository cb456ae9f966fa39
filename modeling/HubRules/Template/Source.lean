import HubRules.Template.Expr

/-!
# Sources of templates

A source is a text and then tags, each with the text after it. This module reads
the tags of a source, takes the backslashes off escaped braces, and checks that
blocks are closed and that an `else` stands where a block allows one. A source
that cannot be read is stuck at a place of its text.
-/

namespace HubRules.Template

/-- A tag in a source: where it begins, and whether it trims the text around it. -/
structure Mark where
  tag : Tag Text
  place : Position
  trimsBefore : Bool
  trimsAfter : Bool

/-- A text, and tags with the text after each. -/
structure Source where
  first : Text
  marks : List (Mark × Text)

/-! ## Text between tags -/

/-- How many characters after a backslash stand for themselves: escaped braces, or
the other backslashes before a tag. -/
def escapedLength? (text : Text) : Option Nat :=
  if "\x7b\x7b\x7b\x7b".toList.isPrefixOf text then some 4
  else if "\x7b\x7b".toList.isPrefixOf text then some 2
  else
    let slashes := text.takeWhile (· == '\\')
    if !slashes.isEmpty && "\x7b\x7b".toList.isPrefixOf (text.drop slashes.length) then
      some slashes.length
    else none

/-- The text up to the next `opening`, without the backslashes of escapes, and the
source from there on. The first `verbatim` characters stand for themselves. -/
def gapFrom (opening : Text) : Nat → Text → Text × Text
  | _, [] => ([], [])
  | verbatim + 1, c :: cs =>
    let (gap, rest) := gapFrom opening verbatim cs
    (c :: gap, rest)
  | 0, c :: cs =>
    if opening.isPrefixOf (c :: cs) then ([], c :: cs)
    else match if c == '\\' then escapedLength? cs else none with
      | some length => gapFrom opening length cs
      | none =>
        let (gap, rest) := gapFrom opening 0 cs
        (c :: gap, rest)

def gap (text : Text) : Text × Text := gapFrom "\x7b\x7b".toList 0 text

def verbatimGap (text : Text) : Text × Text := gapFrom "\x7b\x7b\x7b\x7b".toList 0 text

/-! ## Tags -/

/-- What follows a text, if it is ahead after blanks. -/
def expect (wanted : String) (text : Text) : Except Text Text :=
  let start := skipBlanks text
  match Text.dropStart? wanted.toList start with
  | some rest => .ok rest
  | none => .error start

/-- Takes a trimming mark, if it is ahead after blanks. -/
def trimMark (text : Text) : Bool × Text :=
  match skipBlanks text with
  | '~' :: rest => (true, rest)
  | _ => (false, text)

/-- The end of a tag: whether it trims, and what follows. -/
def tagEnd (close : String) (text : Text) : Except Text (Bool × Text) := do
  let (trims, rest) := trimMark text
  return (trims, ← expect close rest)

/-- What follows a comment after its opening. A comment that begins with two dashes
ends with two dashes if those follow anywhere. -/
def commentEnd? (text : Text) : Option Text :=
  ((Text.dropStart? "--".toList (skipBlanks text)).bind
    (Text.after? "--\x7d\x7d".toList)).orElse fun _ => Text.after? "\x7d\x7d".toList text

def partialName? (text : Text) : Option (Text × Text) :=
  let name := text.takeWhile fun c => isSymbol c || c == '/' || c == '.'
  if !name.isEmpty then some (name, text.drop name.length)
  else (path? text).map fun (path, rest) => (path.text, rest)

/-- The name of a partial template with its operands. -/
def partialCall (text : Text) : Except Text (Call Text × Text) :=
  let start := skipBlanks text
  match partialName? start with
  | none => .error start
  | some (name, rest) => do
    let (params, hash, rest) ← operands (4 * rest.length + 4) rest
    return (⟨name, params, hash⟩, rest)

/-- The tag of an `else`, alone or with a call, if it is ahead. -/
def otherwise? (text : Text) : Option (Tag Text × Bool × Text) :=
  let alone (rest : Text) : Option (Tag Text × Bool × Text) :=
    (tagEnd "\x7d\x7d" rest).toOption.map fun (trims, rest) => (.otherwise, trims, rest)
  match text with
  | '^' :: rest => alone rest
  | _ =>
    match Text.dropStart? "else".toList text with
    | none => none
    | some rest =>
      (alone rest).orElse fun _ => do
        let (found, rest) ← (call rest).toOption
        let (names, rest) := blockNames rest
        let (trims, rest) ← (tagEnd "\x7d\x7d" rest).toOption
        return (.otherwiseCall found names, trims, rest)

/-- A tag after its opening braces and trimming mark: the tag, whether it trims what
follows it, and what follows. -/
def tagBody (text : Text) : Except Text (Tag Text × Bool × Text) :=
  let text := skipBlanks text
  match text with
  | '#' :: inner =>
    match skipBlanks inner with
    | '>' :: inner => do
      let (found, rest) ← partialCall inner
      let (trims, rest) ← tagEnd "\x7d\x7d" rest
      return (.opening .fallback found [], trims, rest)
    | '*' :: inner => do
      let (found, rest) ← call inner
      let (_, rest) := blockNames rest
      let (trims, rest) ← tagEnd "\x7d\x7d" rest
      return (.opening .decorator found [], trims, rest)
    | _ => do
      let (found, rest) ← call inner
      let (names, rest) := blockNames rest
      let (trims, rest) ← tagEnd "\x7d\x7d" rest
      return (.opening .section found names, trims, rest)
  | '/' :: inner =>
    let start := skipBlanks inner
    match partialName? start with
    | none => .error start
    | some (name, rest) => do
      let (trims, rest) ← tagEnd "\x7d\x7d" rest
      return (.closing name, trims, rest)
  | '>' :: inner => do
    let (found, rest) ← partialCall inner
    let (trims, rest) ← tagEnd "\x7d\x7d" rest
    return (.inclusion found, trims, rest)
  | '*' :: inner => do
    let (found, rest) ← call inner
    let (_, rest) := blockNames rest
    let (trims, rest) ← tagEnd "\x7d\x7d" rest
    return (.decorator found, trims, rest)
  | '&' :: inner => do
    let start := skipBlanks inner
    let (found, rest) ← match start with
      | '(' :: inner => do
        let (expr, rest) ← enclosed (4 * inner.length + 4) inner
        pure (Subject.computed expr, rest)
      | _ =>
        match path? start with
        | some (path, rest) => pure (Subject.path path, rest)
        | none => .error start
    let (trims, rest) ← tagEnd "\x7d\x7d" rest
    return (.output found false, trims, rest)
  | '\x7b' :: inner => do
    let (found, rest) ← subject inner
    let rest ← expect "\x7d" rest
    let (trims, rest) ← tagEnd "\x7d\x7d" rest
    return (.output found false, trims, rest)
  | _ =>
    match otherwise? text with
    | some found => .ok found
    | none => do
      let (found, rest) ← subject text
      let (trims, rest) ← tagEnd "\x7d\x7d" rest
      return (.output found true, trims, rest)

/-- A tag between three braces, after those that open it. -/
def unescapedBody (text : Text) : Except Text (Bool × Tag Text × Bool × Text) := do
  let (trimsBefore, rest) := trimMark text
  let (found, rest) ← subject rest
  let (trimsAfter, rest) ← tagEnd "\x7d\x7d\x7d" rest
  return (trimsBefore, .output found false, trimsAfter, rest)

/-- The opening of a block of verbatim text, after its braces. -/
def verbatimOpening (text : Text) : Except Text (Bool × Tag Text × Bool × Text) := do
  let (trimsBefore, rest) := trimMark text
  let (found, rest) ← call rest
  let (names, rest) := blockNames rest
  let (trimsAfter, rest) ← tagEnd "\x7d\x7d\x7d\x7d" rest
  return (trimsBefore, .opening .verbatim found names, trimsAfter, rest)

/-- The end of a block of verbatim text, after its braces. -/
def verbatimClosing (text : Text) : Except Text (Bool × Tag Text × Bool × Text) := do
  let (trimsBefore, rest) := trimMark text
  let start ← expect "/" rest
  match name? (skipBlanks start) with
  | none => .error (skipBlanks start)
  | some (name, rest) =>
    let (trimsAfter, rest) ← tagEnd "\x7d\x7d\x7d\x7d" rest
    return (trimsBefore, .closing name, trimsAfter, rest)

/-- The tag at the head of a text that begins with two braces. -/
def tagAhead (text : Text) : Except Text (Bool × Tag Text × Bool × Text) :=
  match text with
  | '\x7b' :: '\x7b' :: '\x7b' :: '\x7b' :: rest => verbatimOpening rest
  | '\x7b' :: '\x7b' :: '!' :: rest =>
    match commentEnd? rest with
    | some rest => .ok (false, .comment, false, rest)
    | none => .error text
  | _ =>
    let braces := text.drop 2
    let plain := do
      let (trimsBefore, rest) := trimMark braces
      let (tag, trimsAfter, rest) ← tagBody rest
      return (trimsBefore, tag, trimsAfter, rest)
    match braces with
    | '\x7b' :: rest =>
      match unescapedBody rest with
      | .ok found => .ok found
      | .error _ => plain
    | _ => plain

/-! ## Nesting -/

/-- A block that is still open, and whether its `else` has been seen. -/
structure OpenBlock where
  kind : BlockKind
  inverted : Bool

/-- The open blocks after a tag, if it may stand where they are open. -/
def OpenBlock.after? (open_ : List OpenBlock) : Tag Text → Option (List OpenBlock)
  | .opening kind _ _ => some (⟨kind, false⟩ :: open_)
  | .otherwise =>
    match open_ with
    | ⟨.section, false⟩ :: outer => some (⟨.section, true⟩ :: outer)
    | _ => none
  | .otherwiseCall _ _ =>
    match open_ with
    | ⟨.section, false⟩ :: _ => some open_
    | _ => none
  | .closing name =>
    match open_ with
    | ⟨kind, _⟩ :: outer => if kind == .fallback || name.all isSymbol then some outer else none
    | [] => none
  | .comment | .output _ _ | .inclusion _ | .decorator _ => some open_

/-- The tags of a text that begins with one, each with the text after it. -/
def marksFrom : Nat → Position → List OpenBlock → Text → Except Text (List (Mark × Text))
  | _, _, open_, [] => if open_.isEmpty then .ok [] else .error []
  | 0, _, _, text => .error text
  | limit + 1, place, open_, text => do
    let inVerbatim := open_.head?.any (·.kind == .verbatim)
    let (trimsBefore, tag, trimsAfter, rest) ←
      if inVerbatim then verbatimClosing (text.drop 4) else tagAhead text
    match OpenBlock.after? open_ tag with
    | none => .error text
    | some stillOpen =>
      let opensVerbatim := stillOpen.head?.any (·.kind == .verbatim)
      let (between, next) := if opensVerbatim then verbatimGap rest else gap rest
      let nextPlace := place.afterText (text.take (text.length - next.length))
      let marks ← marksFrom limit nextPlace stillOpen next
      return (⟨tag, place, trimsBefore, trimsAfter⟩, between) :: marks

/-- Reads a source, or gives the text at which it is stuck. -/
def Source.read (text : Text) : Except Text Source := do
  let (first, rest) := gap text
  let place := Position.start.afterText (text.take (text.length - rest.length))
  return ⟨first, ← marksFrom (text.length + 1) place [] rest⟩

def stuckLine (source stuck : Text) : Nat :=
  (Position.start.afterText (source.take (source.length - stuck.length))).line

end HubRules.Template
