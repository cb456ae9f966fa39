import HubRules.Template.Error
import HubRules.Template.Layout

/-!
# Parsing templates

The pieces of a source nested into a tree. Malformed text is reported before
anything else; then, from the start of the source on, literals that are not JSON
and blocks that are closed by another name.
-/

namespace HubRules.Template

mutual

/-- The expression with its literals read, or the first literal that is not JSON. -/
def Expr.readLiterals : Expr Text → Except Text (Expr Json)
  | .literal written =>
    match literalValue? written with
    | some value => .ok (.literal value)
    | none => .error written
  | .path p => .ok (.path p)
  | .call name params hash => do
    let params ← readParams params
    let hash ← readHash hash
    return .call name params hash

def readParams : List (Expr Text) → Except Text (List (Expr Json))
  | [] => .ok []
  | expr :: rest => do
    let expr ← expr.readLiterals
    let rest ← readParams rest
    return expr :: rest

def readHash : List (String × Expr Text) → Except Text (List (String × Expr Json))
  | [] => .ok []
  | (key, expr) :: rest => do
    let expr ← expr.readLiterals
    let rest ← readHash rest
    return (key, expr) :: rest

end

def Call.readLiterals (call : Call Text) : Except Text (Call Json) := do
  let params ← readParams call.params
  let hash ← readHash call.hash
  return ⟨call.name, params, hash⟩

def Subject.readLiterals : Subject Text → Except Text (Subject Json)
  | .path p => .ok (.path p)
  | .call c => c.readLiterals.map .call
  | .computed expr => expr.readLiterals.map .computed

/-- A block that is still open. -/
structure Pending where
  kind : BlockKind
  place : Option Position
  call : Call Json
  names : List String
  /-- The elements before the block, the last one first. -/
  before : List Element
  /-- The body, once an `else` has ended it. -/
  body : Option (List Element)

namespace Pending

/-- The block that ends with the elements read last. -/
def close (pending : Pending) (last : List Element) : Element :=
  match pending.kind, pending.place with
  | .fallback, some place => .fallback place pending.call last
  | .decorator, some place => .decorator place pending.call
  | _, place =>
    match pending.body with
    | none => .block place pending.call pending.names last none
    | some body => .block place pending.call pending.names body (some last)

/-- Ends a block and those whose `else` it is; gives the elements before them and
the block, the last one first, and the blocks that are still open. -/
def closeAll (pending : Pending) (last : List Element) :
    List Pending → List Element × List Pending
  | [] => (pending.close last :: pending.before, [])
  | outer :: rest =>
    if pending.place.isSome then (pending.close last :: pending.before, outer :: rest)
    else outer.closeAll [pending.close last] rest

/-- The name by which the innermost block is closed. -/
def closingName (pending : Pending) : List Pending → Text
  | [] => pending.call.name
  | outer :: rest =>
    if pending.place.isSome then pending.call.name else outer.closingName rest

end Pending

/-- The elements of pieces, after those read already, the last one first, and inside
the blocks that are open. -/
def elementsFrom (read : List Element) (open_ : List Pending) :
    List Piece → Except TemplateError (List Element)
  | [] => .ok read.reverse
  | .text text :: pieces =>
    elementsFrom (if text.isEmpty then read else .text text :: read) open_ pieces
  | .tag tag place :: pieces =>
    let literal {α : Type} (found : Except Text α) : Except TemplateError α :=
      found.mapError fun written => .invalidSource none (.invalidParam written)
    match tag, open_ with
    | .comment, _ => elementsFrom read open_ pieces
    | .output subject escaped, _ => do
      let subject ← literal subject.readLiterals
      elementsFrom (.output place subject escaped :: read) open_ pieces
    | .inclusion call, _ => do
      let call ← literal call.readLiterals
      elementsFrom (.inclusion place call :: read) open_ pieces
    | .decorator call, _ => do
      let call ← literal call.readLiterals
      elementsFrom (.decorator place call :: read) open_ pieces
    | .opening kind call names, _ => do
      let call ← literal call.readLiterals
      elementsFrom [] (⟨kind, some place, call, names, read, none⟩ :: open_) pieces
    | .otherwise, top :: outer =>
      elementsFrom [] ({ top with body := some read.reverse } :: outer) pieces
    | .otherwiseCall call names, top :: outer => do
      let call ← literal call.readLiterals
      let top := { top with body := some read.reverse }
      elementsFrom [] (⟨.section, none, call, names, [], none⟩ :: top :: outer) pieces
    | .closing name, top :: outer =>
      let opened := top.closingName outer
      if opened = name then
        let (before, stillOpen) := top.closeAll read.reverse outer
        elementsFrom before stillOpen pieces
      else .error (.invalidSource (some place.line) (.mismatchedClosing top.kind opened name))
    | _, [] => elementsFrom read [] pieces

/-- Reads a template. The current item may be written as a single dot. -/
def parse (text : Text) : Except TemplateError Template := do
  let text := Text.replaceAll "\x7b\x7b.\x7d\x7d".toList "\x7b\x7bthis\x7d\x7d".toList text
  match Source.read text with
  | .error stuck => .error (.invalidSource (some (stuckLine text stuck)) .grammar)
  | .ok source => return ⟨← elementsFrom [] [] source.layout⟩

end HubRules.Template
