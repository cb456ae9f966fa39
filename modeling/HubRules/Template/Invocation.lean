import HubRules.Template.Expr
import HubRules.Template.Frame
import HubRules.Template.Value

/-!
# Invocations of helpers

What a helper is given: its evaluated operands, the parts of its block as functions
of a scope, and the scope that it is called in. The section rule, by which blocks
that are no helpers render, is stated here.
-/

namespace HubRules.Template

/-- An operand with its value, if it has one, and the path that it was written as. -/
structure Argument where
  found : Option Found
  text : Text

/-- The value of an operand; one without a value is `null`. -/
def Argument.value (argument : Argument) : Json :=
  (argument.found.map (·.value)).getD .null

/-- A part of a template, rendered in a scope. -/
abbrev Part := Scope → Except TemplateError Text

/-- The call of a helper. Only a block has a body. -/
structure Invocation where
  name : Text
  params : List Argument
  hash : List (String × Argument)
  names : List String
  body : Option Part
  inverse : Option Part
  scope : Scope
  strict : Bool

/-- What a helper gives. -/
inductive Output where
  /-- Text that goes to the output as it is. -/
  | markup (text : Text)
  /-- Text that is escaped where the output is. -/
  | plain (text : Text)
  | value (value : Json)

namespace Output

/-- What reaches the output. -/
def toText (escape : Text → Text) : Output → Text
  | .markup text => text
  | .plain text => escape text
  | .value v => escape (display v)

/-- What an enclosing call is given. -/
def toValue : Output → Json
  | .markup text | .plain text => .string (String.ofList text)
  | .value v => v

end Output

namespace Invocation

def param (call : Invocation) (helper : String) (index : Nat) : Except TemplateError Argument :=
  match call.params[index]? with
  | some argument => .ok argument
  | none => .error (.render none (.missingParam helper.toList index))

/-- The value of a keyed operand; of a key given twice the last one counts. -/
def option? (call : Invocation) (key : String) : Option Json :=
  (call.hash.reverse.lookup key).map Argument.value

def renderBody (call : Invocation) (scope : Scope) : Except TemplateError Text :=
  match call.body with
  | some part => part scope
  | none => .ok []

/-- Renders the `else` part in the scope of the call. -/
def renderInverse (call : Invocation) : Except TemplateError Text :=
  match call.inverse with
  | some part => part call.scope
  | none => .ok []

/-- Renders the `else` part; without one, a missing operand is an error if rendering
is strict. -/
def renderInverseOf (call : Invocation) (argument : Argument) : Except TemplateError Text :=
  if call.inverse.isNone && call.strict then .error (.unresolvedKey argument.text)
  else call.renderInverse

def renderOver (call : Invocation) : List Frame → Except TemplateError Text
  | [] => .ok []
  | frame :: frames => do
    let text ← call.renderBody (call.scope.push frame)
    return text ++ (← call.renderOver frames)

def itemsOf (found : Found) (items : List Json) : List Found :=
  items.map fun item => ⟨item, found.depth.map (· + 1)⟩

/-- The section rule: an array renders the body for every item, `true` renders it as
it is, any other truthy value over a frame of its own, and all else renders the
`else` part. Only blocks are sections. -/
def sectionOver (call : Invocation) (found : Option Found) : Except TemplateError Text :=
  if call.body.isNone then .ok []
  else match found with
  | none => call.renderInverse
  | some found =>
    match found.value with
    | .array (item :: items) => call.renderOver ((itemsOf found (item :: items)).map .about)
    | .array [] => call.renderInverse
    | .bool true => call.renderBody call.scope
    | value => if value.isTruthy then call.renderOver [.about found] else call.renderInverse

/-- The value of a path in the scope of the call. -/
def evaluate (call : Invocation) (path : Path) : Except TemplateError (Option Found) :=
  (call.scope.evaluate path).mapError (.render none)

/-- The value of a name in the scope of the call. -/
def evaluateName (call : Invocation) (name : Text) : Except TemplateError (Option Found) :=
  match path? name with
  | some (path, []) => call.evaluate path
  | _ => .ok none

end Invocation

end HubRules.Template
