import HubRules.Proofs.Outcome
import HubRules.Template.Render

/-!
# Refinement of rendering

A template that renders does so to the same text with helpers that answer wherever the former ones
do, and without strictness (`render_refines`, `renderText_refines`). One lemma for each part of
the engine carries this from the helpers and parts that a call is given to what it gives. With the
same helpers it says what strictness is: it rejects templates and changes no text
(`render_lax_of_strict`).
-/

namespace HubRules.Template

open Outcome

/-! ## Calls -/

/-- A part that renders wherever another one does, to the same text. -/
def PartRefines (part part' : Part) : Prop := ∀ scope, Refines (part scope) (part' scope)

/-- A call with parts that refine those of another one, and that is strict only if that one is. -/
def Invocation.Refines (call call' : Invocation) : Prop :=
  ∃ body inverse strict, call' = { call with body, inverse, strict }
    ∧ Option.Rel PartRefines call.body body ∧ Option.Rel PartRefines call.inverse inverse
    ∧ (strict = true → call.strict = true)

/-- A rule that gives what another one gives, for calls that refine those of the other one. -/
def RuleRefines (rule rule' : Builtin.Rule) : Prop :=
  ∀ call call', call.Refines call' → Outcome.Refines (rule call) (rule' call')

namespace Invocation

variable {call call' : Invocation}

theorem Refines.body_isNone (h : call.Refines call') : call'.body.isNone = call.body.isNone := by
  obtain ⟨name, params, hash, names, body, inverse, scope, strict⟩ := call
  obtain ⟨_, _, _, rfl, hbody, -, -⟩ := h
  cases hbody <;> rfl

theorem Refines.renderBody (h : call.Refines call') (inner : Scope) :
    Outcome.Refines (call.renderBody inner) (call'.renderBody inner) := by
  obtain ⟨name, params, hash, names, body, inverse, scope, strict⟩ := call
  obtain ⟨_, _, _, rfl, hbody, -, -⟩ := h
  cases hbody with
  | none => exact .refl _
  | some hpart => exact hpart inner

theorem Refines.renderInverse (h : call.Refines call') :
    Outcome.Refines call.renderInverse call'.renderInverse := by
  obtain ⟨name, params, hash, names, body, inverse, scope, strict⟩ := call
  obtain ⟨_, _, _, rfl, -, hinverse, -⟩ := h
  cases hinverse with
  | none => exact .refl _
  | some hpart => exact hpart scope

theorem Refines.renderInverseOf (h : call.Refines call') (argument : Argument) :
    Outcome.Refines (call.renderInverseOf argument) (call'.renderInverseOf argument) := by
  have hrender := h.renderInverse
  obtain ⟨name, params, hash, names, body, inverse, scope, strict⟩ := call
  obtain ⟨_, _, strict', rfl, -, hinverse, hstrict⟩ := h
  unfold Invocation.renderInverseOf
  cases hinverse with
  | some hpart => exact hrender
  | none =>
    cases strict with
    | true => exact .error _
    | false =>
      obtain rfl : strict' = false := by simpa using hstrict
      exact hrender

theorem Refines.renderOver (h : call.Refines call') (frames : List Frame) :
    Outcome.Refines (call.renderOver frames) (call'.renderOver frames) := by
  have hscope : call'.scope = call.scope := by
    obtain ⟨_, _, _, rfl, -⟩ := h
    rfl
  induction frames with
  | nil => exact .refl _
  | cons frame rest ih =>
    unfold Invocation.renderOver
    rw [hscope]
    exact .bind (h.renderBody _) fun text => .bind ih fun more => .refl _

theorem Refines.sectionOver (h : call.Refines call') (found : Option Found) :
    Outcome.Refines (call.sectionOver found) (call'.sectionOver found) := by
  have hscope : call'.scope = call.scope := by
    obtain ⟨_, _, _, rfl, -⟩ := h
    rfl
  unfold Invocation.sectionOver
  rw [h.body_isNone, hscope]
  split
  · exact .refl _
  · split
    · exact h.renderInverse
    · split
      · exact h.renderOver _
      · exact h.renderInverse
      · exact h.renderBody _
      · split
        · exact h.renderOver _
        · exact h.renderInverse

end Invocation

/-! ## Rules -/

namespace Builtin

theorem condition_refines (wanted : Bool) : RuleRefines (condition wanted) (condition wanted) := by
  intro call call' h
  have hrender := h.renderBody call.scope
  have hinverse := h.renderInverse
  obtain ⟨_, _, _, rfl, -⟩ := h
  unfold condition
  refine .bind (.refl _) fun argument => ?_
  exact .ite (.bind hrender fun text => .refl _) (.bind hinverse fun text => .refl _)

theorem each_refines : RuleRefines each each := by
  intro call call' h
  have hnone := h.body_isNone
  have hover := h.renderOver
  have hinverse := h.renderInverse
  have hinverseOf := h.renderInverseOf
  obtain ⟨_, _, _, rfl, -⟩ := h
  unfold each
  refine .bind (.refl _) fun argument => ?_
  rw [hnone]
  split
  · exact .refl _
  · split
    · exact .bind (hover _) fun text => .refl _
    · exact .bind hinverse fun text => .refl _
    · exact .bind (hinverseOf argument) fun text => .refl _

theorem within_refines : RuleRefines within within := by
  intro call call' h
  have hover := h.renderOver
  have hinverseOf := h.renderInverseOf
  obtain ⟨_, _, _, rfl, -⟩ := h
  unfold within
  refine .bind (.refl _) fun argument => ?_
  split
  · split
    · exact .bind (hover _) fun text => .refl _
    · exact .bind (hinverseOf argument) fun text => .refl _
  · exact .bind (hinverseOf argument) fun text => .refl _

theorem lookup_refines : RuleRefines lookup lookup := by
  intro call call' h
  obtain ⟨_, _, strict', rfl, -, -, hstrict⟩ := h
  unfold lookup
  refine .bind (.refl _) fun collection => .bind (.refl _) fun key => ?_
  dsimp only
  split
  · exact .refl _
  · split
    · exact .error _
    · next hlax =>
      obtain rfl : strict' = false := Bool.eq_false_iff.2 fun h => hlax (hstrict h)
      exact .refl _

theorem raw_refines : RuleRefines raw raw := by
  intro call call' h
  have hrender := h.renderBody call.scope
  obtain ⟨_, _, _, rfl, -⟩ := h
  exact .bind hrender fun text => .refl _

theorem log_refines : RuleRefines log log := by
  intro call call' h
  obtain ⟨_, _, _, rfl, -⟩ := h
  exact .refl _

theorem operand_refines {call call' : Invocation} (h : call.Refines call') (helper name : String)
    (index : Nat) :
    Refines (operand call helper name index) (operand call' helper name index) := by
  obtain ⟨_, _, strict', rfl, -, -, hstrict⟩ := h
  unfold operand
  dsimp only
  split
  · split
    · exact .error _
    · next argument hlax =>
      rw [if_neg]
      · exact .refl _
      · simp only [Bool.and_eq_true, not_and] at hlax ⊢
        exact fun h => hlax (hstrict h)
  · exact .refl _

theorem unary_refines (helper : String) (rule : Json → Json) :
    RuleRefines (unary helper rule) (unary helper rule) :=
  fun _ _ h => .bind (operand_refines h _ _ _) fun _ => .refl _

theorem binary_refines (helper : String) (rule : Json → Json → Bool) :
    RuleRefines (binary helper rule) (binary helper rule) :=
  fun _ _ h => .bind (operand_refines h _ _ _) fun _ =>
    .bind (operand_refines h _ _ _) fun _ => .refl _

theorem find?_refines {name : String} {rule : Rule} (h : find? name = some rule) :
    RuleRefines rule rule := by
  unfold find? at h
  split at h
  case h_18 => cases h
  all_goals obtain rfl := Option.some.inj h
  case h_1 | h_2 => exact condition_refines _
  case h_3 => exact each_refines
  case h_4 => exact within_refines
  case h_5 => exact lookup_refines
  case h_6 => exact raw_refines
  case h_7 => exact log_refines
  case h_16 | h_17 => exact unary_refines _ _
  all_goals exact binary_refines _ _

end Builtin

/-! ## Helpers -/

/-- A helper that answers wherever another one does, with the same text. -/
def HelperRefines (helper helper' : Helper) : Prop := ∀ text, Refines (helper text) (helper' text)

theorem bound_refines (name : String) {helper helper' : Helper} (h : HelperRefines helper helper') :
    RuleRefines (bound name helper) (bound name helper') := by
  intro call call' hcall
  have hnone := hcall.body_isNone
  have hsection := hcall.sectionOver
  have hrender := hcall.renderBody call.scope
  have hsome : call'.body.isSome = call.body.isSome := by
    rw [← Option.not_isNone, ← Option.not_isNone, hnone]
  obtain ⟨_, _, _, rfl, -⟩ := hcall
  unfold bound
  refine .bind (.refl _) fun own => ?_
  dsimp only at hnone hsome ⊢
  rw [hnone, hsome]
  split
  · exact .ite (.bind (hsection _) fun text => .refl _) (.refl _)
  · refine .ite (.refl _) (.bind hrender fun text => ?_)
    exact .bind (.mapError (h text)) fun written => .refl _

theorem sectionRule_refines : RuleRefines sectionRule sectionRule := by
  intro call call' h
  have hsection := h.sectionOver
  obtain ⟨_, _, _, rfl, -⟩ := h
  exact .bind (.refl _) fun found => .bind (hsection found) fun text => .refl _

namespace Renderer

/-- A renderer with helpers that refine those of another one, and that is strict only if that
one is. -/
structure Refines (r r' : Renderer) : Prop where
  helpers : ∀ name, Option.Rel HelperRefines (r.helpers.get? name) (r'.helpers.get? name)
  strict : r'.strict = true → r.strict = true

variable {r r' : Renderer}

theorem Refines.helper? (h : r.Refines r') (name : Text) :
    Option.Rel RuleRefines (r.helper? name) (r'.helper? name) := by
  have hname := h.helpers (String.ofList name)
  unfold Renderer.helper?
  dsimp only
  generalize r.helpers.get? (String.ofList name) = found at hname ⊢
  generalize r'.helpers.get? (String.ofList name) = found' at hname ⊢
  cases hname with
  | some hhelper => exact .some (bound_refines _ hhelper)
  | none =>
    dsimp only
    split
    · exact .some sectionRule_refines
    · cases hbuiltin : Builtin.find? (String.ofList name) with
      | none => exact .none
      | some rule => exact .some (Builtin.find?_refines hbuiltin)

theorem Refines.invoke (h : r.Refines r') : RuleRefines r.invoke r'.invoke := by
  intro call call' hcall
  have hbody : call'.body.isSome = call.body.isSome := by
    rw [← Option.not_isNone, ← Option.not_isNone, hcall.body_isNone]
  have hname : call'.name = call.name := by
    obtain ⟨_, _, _, rfl, -⟩ := hcall
    rfl
  unfold Renderer.invoke
  rw [hname, hbody]
  have hown := h.helper? call.name
  generalize r.helper? call.name = found at hown ⊢
  generalize r'.helper? call.name = found' at hown ⊢
  cases hown with
  | some hrule => exact hrule call call' hcall
  | none =>
    dsimp only
    generalize (if call.body.isSome = true then sectionName else missingName) = standIn
    have hother := h.helper? standIn.toList
    generalize r.helper? standIn.toList = found at hother ⊢
    generalize r'.helper? standIn.toList = found' at hother ⊢
    cases hother with
    | some hrule => exact hrule call call' hcall
    | none => exact .refl _

/-! ## Operands -/

theorem Refines.bare (h : r.Refines r') (name : Text) (params : List Argument)
    (hash : List (String × Argument)) (scope : Scope) :
    Invocation.Refines ⟨name, params, hash, [], none, none, scope, r.strict⟩
      ⟨name, params, hash, [], none, none, scope, r'.strict⟩ :=
  ⟨none, none, r'.strict, rfl, .none, .none, h.strict⟩

mutual

theorem Refines.argument (h : r.Refines r') (scope : Scope) :
    ∀ expr : Expr Json, Outcome.Refines (r.argument scope expr) (r'.argument scope expr)
  | .literal _ => .refl _
  | .path _ => .refl _
  | .call name params hash => by
    unfold Renderer.argument
    refine .bind (h.arguments scope params) fun params => ?_
    refine .bind (h.keyedArguments scope hash) fun hash => ?_
    exact .bind (h.invoke _ _ (h.bare name params hash scope)) fun output => .refl _

theorem Refines.arguments (h : r.Refines r') (scope : Scope) :
    ∀ exprs : List (Expr Json),
      Outcome.Refines (r.arguments scope exprs) (r'.arguments scope exprs)
  | [] => .refl _
  | expr :: rest => by
    unfold Renderer.arguments
    exact .bind (h.argument scope expr) fun first =>
      .bind (h.arguments scope rest) fun more => .refl _

theorem Refines.keyedArguments (h : r.Refines r') (scope : Scope) :
    ∀ exprs : List (String × Expr Json),
      Outcome.Refines (r.keyedArguments scope exprs) (r'.keyedArguments scope exprs)
  | [] => .refl _
  | (key, expr) :: rest => by
    unfold Renderer.keyedArguments
    exact .bind (h.argument scope expr) fun first =>
      .bind (h.keyedArguments scope rest) fun more => .refl _

end

theorem Refines.call (h : r.Refines r') (scope : Scope) (call : Call Json) (names : List String)
    {body body' inverse inverse' : Option Part} (hbody : Option.Rel PartRefines body body')
    (hinverse : Option.Rel PartRefines inverse inverse') :
    Outcome.Refines (do r.invoke (← r.prepare scope call names body inverse))
      (do r'.invoke (← r'.prepare scope call names body' inverse')) := by
  unfold Renderer.prepare
  simp only [bind_assoc, pure_bind]
  refine .bind (h.arguments scope call.params) fun params => ?_
  refine .bind (h.keyedArguments scope call.hash) fun hash => ?_
  exact h.invoke _ _ ⟨body', inverse', r'.strict, rfl, hbody, hinverse, h.strict⟩

theorem Refines.partialScope (h : r.Refines r') (scope : Scope) (call : Call Json) :
    Outcome.Refines (r.partialScope scope call) (r'.partialScope scope call) := by
  unfold Renderer.partialScope Renderer.prepare
  simp only [bind_assoc, pure_bind]
  exact .bind (h.arguments scope call.params) fun params =>
    .bind (h.keyedArguments scope call.hash) fun hash => .refl _

/-! ## Elements

An element gives its parts to the calls that it makes; that they refine each other is known from
the recursion over the elements in them. -/

theorem Refines.outputNamed (h : r.Refines r') (scope : Scope) (name : Text)
    (argument : Argument) :
    Outcome.Refines (r.outputNamed scope name argument) (r'.outputNamed scope name argument) := by
  have hcall := h.bare name [] [] scope
  have hown := h.helper? name
  have hmissing := h.helper? missingName.toList
  have hstrict := h.strict
  unfold Renderer.outputNamed
  dsimp only
  generalize r.helper? name = found at hown ⊢
  generalize r'.helper? name = found' at hown ⊢
  cases hown with
  | some hrule => exact hrule _ _ hcall
  | none =>
    cases argument.found with
    | some found => exact .refl _
    | none =>
      dsimp only
      split
      · exact .error _
      · next hlax =>
        rw [if_neg fun h => hlax (hstrict h)]
        generalize r.helper? missingName.toList = found at hmissing ⊢
        generalize r'.helper? missingName.toList = found' at hmissing ⊢
        cases hmissing with
        | some hrule => exact hrule _ _ hcall
        | none => exact .refl _

theorem Refines.helper?_isSome (h : r.Refines r') (name : Text) :
    (r'.helper? name).isSome = (r.helper? name).isSome := by
  have hown := h.helper? name
  generalize r.helper? name = found at hown ⊢
  generalize r'.helper? name = found' at hown ⊢
  cases hown <;> rfl

theorem Refines.outputOf (h : r.Refines r') (scope : Scope) (subject : Subject Json) :
    Outcome.Refines (r.outputOf scope subject) (r'.outputOf scope subject) := by
  cases subject with
  | path p =>
    unfold Renderer.outputOf
    dsimp only
    rw [h.helper?_isSome]
    exact .ite (h.outputNamed scope p.text _)
      (.bind (h.argument scope (.path p)) fun argument => h.outputNamed scope p.text argument)
  | call c => exact h.call scope c [] .none .none
  | computed expr =>
    exact .bind (h.argument scope expr) fun argument => h.outputNamed scope _ argument

mutual

theorem Refines.element (h : r.Refines r') (scope : Scope) :
    ∀ element : Element, Outcome.Refines (r.element scope element) (r'.element scope element)
  | .text _ => .refl _
  | .output place subject escaped => by
    unfold Renderer.element Renderer.renderOutput
    exact .mapError (.bind (h.outputOf scope subject) fun output => .refl _)
  | .block place call names body inverse => by
    have hparts := h.call scope call names
      (.some fun inner => h.elements inner body) (h.inversePart inverse)
    have hblock : Outcome.Refines
        (r.renderBlock scope call names (fun inner => r.elements inner body)
          (r.inversePart inverse))
        (r'.renderBlock scope call names (fun inner => r'.elements inner body)
          (r'.inversePart inverse)) := by
      unfold Renderer.renderBlock
      have := Outcome.Refines.bind hparts fun output =>
        .refl (pure (output.toText Text.escapeHtml) : Except TemplateError Text)
      simpa only [bind_assoc] using this
    unfold Renderer.element
    cases place with
    | some place => exact .mapError hblock
    | none => exact hblock
  | .inclusion place call => by
    unfold Renderer.element
    exact .mapError (.bind (h.partialScope scope call) fun inner => .refl _)
  | .decorator place call => by
    unfold Renderer.element Renderer.prepare
    simp only [bind_assoc, pure_bind]
    exact .mapError (.bind (h.arguments scope call.params) fun params =>
      .bind (h.keyedArguments scope call.hash) fun hash => .refl _)
  | .fallback place call body => by
    unfold Renderer.element
    exact .mapError (.bind (h.partialScope scope call) fun inner => h.elements inner body)

theorem Refines.elements (h : r.Refines r') (scope : Scope) :
    ∀ elements : List Element,
      Outcome.Refines (r.elements scope elements) (r'.elements scope elements)
  | [] => .refl _
  | first :: rest => by
    unfold Renderer.elements
    exact .bind (h.element scope first) fun text =>
      .bind (h.elements scope rest) fun more => .refl _

theorem Refines.inversePart (h : r.Refines r') :
    ∀ inverse : Option (List Element),
      Option.Rel PartRefines (r.inversePart inverse) (r'.inversePart inverse)
  | none => by
    unfold Renderer.inversePart
    exact .none
  | some body => by
    unfold Renderer.inversePart
    exact .some fun inner => h.elements inner body

end

end Renderer

/-- A template that renders does so with helpers that refine those that it was rendered with, and
without strictness. -/
theorem render_refines (template : Template) (data : Json) {helpers helpers' : Helpers}
    {strict strict' : Bool}
    (hhelpers : ∀ name, Option.Rel HelperRefines (helpers.get? name) (helpers'.get? name))
    (hstrict : strict' = true → strict = true) :
    Refines (template.render data helpers strict) (template.render data helpers' strict') :=
  Renderer.Refines.elements ⟨hhelpers, hstrict⟩ (.ofData data) template.elements

theorem renderText_refines (source : Text) (data : Json) {helpers helpers' : Helpers}
    {strict strict' : Bool}
    (hhelpers : ∀ name, Option.Rel HelperRefines (helpers.get? name) (helpers'.get? name))
    (hstrict : strict' = true → strict = true) :
    Refines (renderText source data helpers strict) (renderText source data helpers' strict') := by
  unfold renderText
  exact .bind (.refl _) fun template => render_refines template data hhelpers hstrict

theorem HelperRefines.refl (helper : Helper) : HelperRefines helper helper := fun _ => .refl _

/-- Strictness only rejects: a template that renders strictly, over any data and with any helpers,
renders to the same text without it. -/
theorem render_lax_of_strict (template : Template) (data : Json) (helpers : Helpers) {text : Text}
    (h : template.render data helpers true = .ok text) :
    template.render data helpers false = .ok text := by
  have hhelpers : ∀ name, Option.Rel HelperRefines (helpers.get? name) (helpers.get? name) := by
    intro name
    cases helpers.get? name with
    | none => exact .none
    | some helper => exact .some (.refl helper)
  exact render_refines template data hhelpers (fun _ => rfl) text h

/-- A section over a list, and one over a name that may have no value. -/
def twoSections : Template := ⟨[
  .block (some ⟨1, 1⟩) ⟨"items".toList, [], []⟩ []
    [.output ⟨1, 11⟩ (.path ⟨.frame 0, ["name"], "name".toList⟩) true, .text ";".toList] none,
  .block (some ⟨1, 30⟩) ⟨"absent".toList, [], []⟩ [] [.text "x".toList] none]⟩

def twoItems : Json :=
  .object [("items", .array [.object [("name", .string "a&b")], .object [("name", .string "c")]])]

/-- Strictness asks for the names of the items, but not for the value of a section. -/
theorem render_lax_of_strict_sections :
    twoSections.render twoItems .empty true = .ok "a&amp;b;c;".toList
      ∧ twoSections.render twoItems .empty false = .ok "a&amp;b;c;".toList := by
  have hstrict : twoSections.render twoItems .empty true = .ok "a&amp;b;c;".toList := rfl
  exact ⟨hstrict, render_lax_of_strict twoSections twoItems .empty hstrict⟩

end HubRules.Template
