import HubRules.Helper.Registry
import HubRules.Template.Builtin
import HubRules.Template.Parser
import HubRules.Text.Escaped

/-!
# Rendering templates

Elements render in order, blocks over the frames that they push. A helper of the
library is a section: its body is rendered first and the text handed to it; but a
value of its name that lies nearer than the root of the data takes its place.
-/

namespace HubRules.Template

/-- What stays the same while a template is rendered: its helpers, and whether a
variable without a value is an error. -/
structure Renderer where
  helpers : Helpers
  strict : Bool

/-- Whether a value lies nearer than the members of the data: deeper, or computed. -/
def Found.isNear (found : Found) : Bool := found.depth.all (1 < ·)

def runHelper (name : String) (helper : Helper) (text : Text) : Except TemplateError Text :=
  (helper text).mapError (.helper name.toList)

/-- A helper of the library. -/
def bound (name : String) (helper : Helper) : Builtin.Rule := fun call => do
  let own ← call.evaluateName name.toList
  match own.filter (·.isNear) with
  | some found =>
    if call.body.isSome then return .markup (← call.sectionOver (some found))
    else return .plain (display found.value)
  | none =>
    if call.body.isNone then throw (.helperAsVariable name.toList)
    let text ← call.renderBody call.scope
    return .markup (← runHelper name helper text)

/-- A block that is no helper. -/
def sectionRule : Builtin.Rule := fun call => do
  let found ← call.evaluateName call.name
  return .markup (← call.sectionOver found)

/-- The name under which the section rule can itself be called, and replaced. -/
def sectionName : String := "blockHelperMissing"

/-- The name of the helper, if there is one, for calls of helpers that do not exist. -/
def missingName : String := "helperMissing"

namespace Renderer

def helper? (r : Renderer) (name : Text) : Option Builtin.Rule :=
  let name := String.ofList name
  match r.helpers.get? name with
  | some helper => some (bound name helper)
  | none => if name = sectionName then some sectionRule else Builtin.find? name

/-- Calls the helper of a name, or what stands in for one that does not exist. -/
def invoke (r : Renderer) : Builtin.Rule := fun call =>
  match r.helper? call.name with
  | some rule => rule call
  | none =>
    let standIn := if call.body.isSome then sectionName else missingName
    match r.helper? standIn.toList with
    | some rule => rule call
    | none => .error (.render none (.helperNotFound call.name))

mutual

def argument (r : Renderer) (scope : Scope) : Expr Json → Except TemplateError Argument
  | .literal value => .ok ⟨some ⟨value, none⟩, []⟩
  | .path p => do
    let found ← (scope.evaluate p).mapError (.render none)
    return ⟨found, p.text⟩
  | .call name params hash => do
    let params ← r.arguments scope params
    let hash ← r.keyedArguments scope hash
    let output ← r.invoke ⟨name, params, hash, [], none, none, scope, r.strict⟩
    return ⟨some ⟨output.toValue, none⟩, []⟩

def arguments (r : Renderer) (scope : Scope) :
    List (Expr Json) → Except TemplateError (List Argument)
  | [] => .ok []
  | expr :: rest => do
    let first ← r.argument scope expr
    return first :: (← r.arguments scope rest)

def keyedArguments (r : Renderer) (scope : Scope) :
    List (String × Expr Json) → Except TemplateError (List (String × Argument))
  | [] => .ok []
  | (key, expr) :: rest => do
    let first ← r.argument scope expr
    return (key, first) :: (← r.keyedArguments scope rest)

end

/-- A call in a scope, with its operands evaluated. -/
def prepare (r : Renderer) (scope : Scope) (call : Call Json) (names : List String)
    (body inverse : Option Part) : Except TemplateError Invocation := do
  let params ← r.arguments scope call.params
  let hash ← r.keyedArguments scope call.hash
  return ⟨call.name, params, hash, names, body, inverse, scope, r.strict⟩

/-- The output for a value that is named as it is written, or for the helper of that
name. -/
def outputNamed (r : Renderer) (scope : Scope) (name : Text) (argument : Argument) :
    Except TemplateError Output :=
  let call : Invocation := ⟨name, [], [], [], none, none, scope, r.strict⟩
  match r.helper? name, argument.found with
  | some rule, _ => rule call
  | none, some found => .ok (.plain (display found.value))
  | none, none =>
    if r.strict then .error (.unresolvedKey argument.text)
    else match r.helper? missingName.toList with
      | some rule => rule call
      | none => .ok (.markup [])

def outputOf (r : Renderer) (scope : Scope) : Subject Json → Except TemplateError Output
  | .path p =>
    if (r.helper? p.text).isSome then r.outputNamed scope p.text ⟨none, []⟩
    else do
      let argument ← r.argument scope (.path p)
      r.outputNamed scope p.text argument
  | .call c => do r.invoke (← r.prepare scope c [] none none)
  | .computed expr => do
    let argument ← r.argument scope expr
    r.outputNamed scope (display argument.value) argument

/-- The output of a tag without a block as text. -/
def renderOutput (r : Renderer) (scope : Scope) (subject : Subject Json) (escaped : Bool) :
    Except TemplateError Text := do
  let output ← r.outputOf scope subject
  return output.toText (if escaped then Text.escapeHtml else id)

def renderBlock (r : Renderer) (scope : Scope) (call : Call Json) (names : List String)
    (body : Part) (inverse : Option Part) : Except TemplateError Text := do
  let output ← r.invoke (← r.prepare scope call names (some body) inverse)
  return output.toText Text.escapeHtml

/-- The scope of the body of a partial template: over its first operand, if that lies
in the data. -/
def partialScope (r : Renderer) (scope : Scope) (call : Call Json) :
    Except TemplateError Scope := do
  let invocation ← r.prepare scope call [] none none
  match invocation.params.head?.bind (·.found) with
  | some found => return if found.depth.isSome then scope.push (.about found) else scope
  | none => return scope

/-- The errors of an element without a place are at the place of the element. -/
def atPlace {α : Type} (place : Position) (result : Except TemplateError α) :
    Except TemplateError α :=
  result.mapError (TemplateError.located place)

mutual

def element (r : Renderer) (scope : Scope) : Element → Except TemplateError Text
  | .text text => .ok text
  | .output place subject escaped => atPlace place (r.renderOutput scope subject escaped)
  | .block place call names body inverse =>
    let result := r.renderBlock scope call names (fun inner => r.elements inner body)
      (r.inversePart inverse)
    match place with
    | some place => atPlace place result
    | none => result
  | .inclusion place call =>
    atPlace place do
      let _ ← r.partialScope scope call
      throw (.render none (.partialNotFound call.name))
  | .decorator place call =>
    atPlace place do
      let _ ← r.prepare scope call [] none none
      throw (.render none (.decoratorNotFound call.name))
  | .fallback place call body =>
    atPlace place do
      let inner ← r.partialScope scope call
      r.elements inner body

def elements (r : Renderer) (scope : Scope) : List Element → Except TemplateError Text
  | [] => .ok []
  | first :: rest => do
    let text ← r.element scope first
    return text ++ (← r.elements scope rest)

/-- The `else` part of a block. -/
def inversePart (r : Renderer) : Option (List Element) → Option Part
  | none => none
  | some body => some fun inner => r.elements inner body

end

end Renderer

def render (template : Template) (data : Json) (helpers : Helpers) (strict : Bool) :
    Except TemplateError Text :=
  Renderer.elements ⟨helpers, strict⟩ (.ofData data) template.elements

def renderText (source : Text) (data : Json) (helpers : Helpers) (strict : Bool) :
    Except TemplateError Text := do
  (← parse source).render data helpers strict

end HubRules.Template

namespace HubRules.Helpers

def call (helpers : Helpers) (name : String) (text : Text) : Except TemplateError Text :=
  match helpers.get? name with
  | some helper => Template.runHelper name helper text
  | none => .error (.unresolvedKey name.toList)

end HubRules.Helpers
