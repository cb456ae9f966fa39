import HubRules.Proofs.Template.Scopes

/-!
# Rendering sections

A template of text, variables and sections renders to what its outline means over the
stack of its scope, the errors of helpers included (`render_eq_meaning`). Each kind of
tag is one lemma; the frames that a block pushes stay plain, so the induction over the
outline carries on inside of it.
-/

namespace HubRules.Template

/-! ## Places of errors -/

/-- No place is added to the error of an outcome. -/
def IsPlaced {α : Type} (outcome : Except TemplateError α) : Prop :=
  ∀ place, Renderer.atPlace place outcome = outcome

namespace IsPlaced

variable {α β : Type}

theorem ok (a : α) : IsPlaced (.ok a : Except TemplateError α) := fun _ => rfl

theorem bind {first : Except TemplateError α} {next : α → Except TemplateError β}
    (hfirst : IsPlaced first) (hnext : ∀ a, IsPlaced (next a)) : IsPlaced (first >>= next) := by
  cases first with
  | error cause =>
    intro place
    have hcause : TemplateError.located place cause = cause := Except.error.inj (hfirst place)
    exact congrArg Except.error hcause
  | ok a => exact hnext a

theorem mapM {f : α → Except TemplateError β} (h : ∀ a, IsPlaced (f a)) (list : List α) :
    IsPlaced (list.mapM f) := by
  induction list with
  | nil => exact ok []
  | cons a rest ih =>
    rw [List.mapM_cons]
    exact bind (h a) fun b => bind ih fun more => ok (b :: more)

theorem ofHelper (name : Text) (result : Except HelperError α) :
    IsPlaced (result.mapError (.helper name)) := by
  cases result with
  | error cause => exact fun _ => rfl
  | ok a => exact ok a

end IsPlaced

theorem Stack.print_isPlaced (stack : Stack) (helpers : Helpers) (name : Text) :
    IsPlaced (stack.print helpers name) := by
  unfold Stack.print
  split
  · exact fun _ => rfl
  · exact .ok _

theorem Stack.block_isPlaced (stack : Stack) (helpers : Helpers) (name : Text)
    {body inverse : Stack → Except TemplateError Text} (hbody : ∀ inner, IsPlaced (body inner))
    (hinverse : ∀ inner, IsPlaced (inverse inner)) :
    IsPlaced (stack.block helpers name body inverse) := by
  unfold Stack.block
  split
  · exact .bind (hbody stack) fun text => .ofHelper name _
  · split
    · exact hinverse stack
    · exact .bind (.mapM hbody _) fun texts => .ok _

theorem Outline.meaning_isPlaced (helpers : Helpers) (outline : Outline) (stack : Stack) :
    IsPlaced (outline.meaning helpers stack) := by
  induction outline generalizing stack with
  | done => exact .ok []
  | text written rest ih => exact .bind (ih stack) fun text => .ok _
  | value name escaped rest ih =>
    exact .bind (stack.print_isPlaced helpers name) fun printed =>
      .bind (ih stack) fun text => .ok _
  | block name body inverse rest hbody hinverse ih =>
    exact .bind (stack.block_isPlaced helpers name hbody hinverse) fun rendered =>
      .bind (ih stack) fun text => .ok _

/-! ## Rounds -/

/-- A part renders in a plain scope to what a function makes of its stack. -/
def Follows (part : Part) (meaning : Stack → Except TemplateError Text) : Prop :=
  ∀ scope : Scope, scope.IsPlain → part scope = meaning scope.stack

/-- A loop over frames is a run over the stacks with one more value each. -/
theorem renderOver_eq {call : Invocation} {body : Part}
    {meaning : Stack → Except TemplateError Text} (hcall : call.body = some body)
    (follows : Follows body meaning) (plain : call.scope.IsPlain) (foci : List Found)
    (hfoci : ∀ focus ∈ foci, focus.IsBelow ∧ focus.value.isArray = false) :
    call.renderOver (foci.map .about) = do
      let texts ← (foci.map fun focus => call.scope.stack.push focus.level).mapM meaning
      return texts.flatten := by
  induction foci with
  | nil => rfl
  | cons focus foci ih =>
    obtain ⟨below, single⟩ := hfoci focus List.mem_cons_self
    have hfirst : call.renderBody (call.scope.push (.about focus)) =
        meaning (call.scope.stack.push focus.level) := by
      calc call.renderBody (call.scope.push (.about focus))
          = body (call.scope.push (.about focus)) := by rw [Invocation.renderBody, hcall]
        _ = meaning (call.scope.push (.about focus)).stack := follows _ (plain.push below single)
        _ = meaning (call.scope.stack.push focus.level) := by rw [Scope.stack_push]
    have hrest := ih fun other hother => hfoci other (List.mem_cons_of_mem _ hother)
    rw [List.map_cons, List.map_cons, Invocation.renderOver, hfirst, hrest, List.mapM_cons]
    simp only [bind_assoc, pure_bind, List.flatten_cons]

section Items

variable {found : Found} {items : List Json} (below : found.IsBelow)
include below

theorem isBelow_of_mem_itemsOf (h : found.value = .array items) :
    ∀ item ∈ Invocation.itemsOf found items, item.IsBelow ∧ item.value.isArray = false := by
  intro item hitem
  obtain ⟨value, hvalue, rfl⟩ := List.mem_map.1 hitem
  obtain ⟨depth, hdepth⟩ := below.depth
  have hflat : Json.areFlatItems items = true := by
    have := below.flat
    rwa [h] at this
  obtain ⟨single, flat⟩ := Json.areFlatItems_iff.1 hflat value hvalue
  exact ⟨⟨⟨depth + 1, by simp [hdepth]⟩, flat⟩, single⟩

theorem map_push_itemsOf (stack : Stack) :
    (Invocation.itemsOf found items).map (fun item => stack.push item.level) =
      items.map fun item => stack.push ⟨item, true⟩ := by
  obtain ⟨depth, hdepth⟩ := below.depth
  simp [Invocation.itemsOf, Found.level, Found.isNear, hdepth]

end Items

theorem Stack.rounds_of_single (stack : Stack) {found : Found}
    (single : found.value.isArray = false) (h : found.value ≠ .bool true) :
    stack.rounds (some found.level) =
      if found.value.isTruthy then [stack.push found.level] else [] := by
  obtain ⟨value, depth⟩ := found
  cases value with
  | array items => cases single
  | bool b =>
    cases b with
    | false => rfl
    | true => exact absurd rfl h
  | _ => rfl

section Sections

variable {call : Invocation} {body : Part} {meaning otherwise : Stack → Except TemplateError Text}
  (hcall : call.body = some body)
include hcall

theorem sectionOver_of_single {found : Found} (single : found.value.isArray = false)
    (h : found.value ≠ .bool true) :
    call.sectionOver (some found) =
      if found.value.isTruthy then call.renderOver [.about found] else call.renderInverse := by
  have hbody : call.body.isNone = false := by simp [hcall]
  obtain ⟨value, depth⟩ := found
  rw [Invocation.sectionOver, hbody, if_neg Bool.false_ne_true]
  cases value with
  | array items => cases single
  | bool b =>
    cases b with
    | false => rfl
    | true => exact absurd rfl h
  | _ => rfl

/-- The section rule renders the body for every round, or the `else` part. -/
theorem sectionOver_eq (follows : Follows body meaning)
    (hinverse : call.renderInverse = otherwise call.scope.stack) (plain : call.scope.IsPlain)
    {own : Option Found} (below : ∀ found ∈ own, found.IsBelow) :
    call.sectionOver own = match call.scope.stack.rounds (own.map Found.level) with
      | [] => otherwise call.scope.stack
      | rounds => return (← rounds.mapM meaning).flatten := by
  cases own with
  | none => simp [Invocation.sectionOver, hcall, Stack.rounds, hinverse]
  | some found =>
    have hbelow := below found rfl
    -- a list has a round for each item, `true` one in the same scope, all else one frame or none
    cases harray : found.value.isArray with
    | true =>
      cases hvalue : found.value with
      | array items =>
        have hover := renderOver_eq hcall follows plain _ (isBelow_of_mem_itemsOf hbelow hvalue)
        rw [map_push_itemsOf hbelow] at hover
        have hrounds : call.scope.stack.rounds (some found.level) =
            items.map fun item => call.scope.stack.push ⟨item, true⟩ := by
          rw [Stack.rounds, Found.level, hvalue]
        rw [Option.map_some, hrounds, Invocation.sectionOver, hvalue]
        cases items with
        | nil => simpa [hcall] using hinverse
        | cons item items => simpa [hcall] using hover
      | _ => simp [hvalue, Json.isArray] at harray
    | false =>
      by_cases htrue : found.value = .bool true
      · simp [Invocation.sectionOver, Stack.rounds, htrue, Found.level, Invocation.renderBody,
          hcall, follows _ plain]
      · rw [sectionOver_of_single hcall harray htrue, Option.map_some,
          Stack.rounds_of_single _ harray htrue]
        cases found.value.isTruthy with
        | true =>
          refine renderOver_eq hcall follows plain [found] fun focus hfocus => ?_
          rw [List.mem_singleton.1 hfocus]
          exact ⟨hbelow, harray⟩
        | false => exact hinverse

end Sections

/-! ## Tags -/

section Hooks

variable {r : Renderer} (hooks : r.helpers.leaveHooks = true)
include hooks

theorem helper?_sectionName : r.helper? sectionName.toList = some sectionRule := by
  simp only [Helpers.leaveHooks, Helpers.contains, Bool.and_eq_true, Bool.not_eq_true',
    Option.isSome_eq_false_iff, Option.isNone_iff_eq_none] at hooks
  simp only [Renderer.helper?, String.ofList_toList, hooks.1, if_true]

theorem helper?_missingName : r.helper? missingName.toList = none := by
  simp only [Helpers.leaveHooks, Helpers.contains, Bool.and_eq_true, Bool.not_eq_true',
    Option.isSome_eq_false_iff, Option.isNone_iff_eq_none] at hooks
  have hother : missingName ≠ sectionName := by decide
  simp only [Renderer.helper?, String.ofList_toList, hooks.2, if_neg hother]
  rfl

end Hooks

section Names

variable {r : Renderer} {name : Text} (free : isFreeName name = true)
include free

theorem helper?_eq_none (hget : r.helpers.get? (String.ofList name) = none) :
    r.helper? name = none := by
  obtain ⟨-, -, notBuiltin, notSection, -⟩ := isFreeName_iff.1 free
  simp only [Renderer.helper?, hget, if_neg notSection, notBuiltin]

omit free in
theorem helper?_eq_bound {helper : Helper}
    (hget : r.helpers.get? (String.ofList name) = some helper) :
    r.helper? name = some (bound (String.ofList name) helper) := by
  simp only [Renderer.helper?, hget]

end Names

theorem evaluateName_eq {call : Invocation} (plain : call.scope.IsPlain) {name : Text}
    (nonempty : name ≠ []) (symbols : ∀ c ∈ name, isSymbol c = true) :
    call.evaluateName name = .ok (call.scope.read? name) := by
  rw [Invocation.evaluateName, path?_ofName symbols nonempty]
  simp only [Invocation.evaluate, plain.evaluate_ofName]
  rfl

theorem evaluateName_free {call : Invocation} (plain : call.scope.IsPlain) {name : Text}
    (free : isFreeName name = true) : call.evaluateName name = .ok (call.scope.read? name) := by
  obtain ⟨nonempty, symbols, -⟩ := isFreeName_iff.1 free
  exact evaluateName_eq plain nonempty symbols

/-- What is deeper than the members of the root hides the helper of its name. -/
theorem stack_helper? {scope : Scope} (plain : scope.IsPlain) (helpers : Helpers) (name : Text) :
    scope.stack.helper? helpers name =
      if ((scope.read? name).filter (·.isNear)).isSome then none
      else helpers.get? (String.ofList name) := by
  rw [Stack.helper?, ← plain.level_read? name]
  cases scope.read? name with
  | none => rfl
  | some own => cases hnear : own.isNear <;> simp [Found.level, hnear]

/-- A helper of the library does its work, or makes way for what is near. -/
theorem bound_eq {call : Invocation} {name : Text} {helper : Helper} {own : Option Found}
    (hown : call.evaluateName name = .ok own) :
    bound (String.ofList name) helper call =
      match own.filter (·.isNear) with
      | some found =>
        if call.body.isSome then (call.sectionOver (some found)).map .markup
        else .ok (.plain (display found.value))
      | none =>
        if call.body.isNone then .error (.helperAsVariable name)
        else Except.map .markup
          (call.renderBody call.scope >>= fun text => (helper text).mapError (.helper name)) := by
  simp only [bound, String.toList_ofList, hown, runHelper]
  cases hnear : own.filter (·.isNear) with
  | some found => cases hbody : call.body <;> simp [bind, Except.bind, hnear] <;> rfl
  | none =>
    cases hbody : call.body with
    | none => simp [bind, Except.bind, hnear]; rfl
    | some body =>
      simp only [bind, Except.bind, hnear, Option.isNone_some, Bool.false_eq_true, if_false]
      cases call.renderBody call.scope with
      | error cause => rfl
      | ok text => cases helper text <;> rfl

/-- What goes to the output as it is reaches it as it is. -/
theorem toText_markup (outcome : Except TemplateError Text) (escape : Text → Text) :
    (do
      let output ← outcome.map Output.markup
      return output.toText escape) = outcome := by
  cases outcome <;> rfl

def Renderer.blockCall (r : Renderer) (scope : Scope) (name : Text) (body : Part)
    (inverse : Option Part) : Invocation :=
  ⟨name, [], [], [], some body, inverse, scope, r.strict⟩

theorem renderBlock_eq (r : Renderer) (scope : Scope) (name : Text) (body : Part)
    (inverse : Option Part) :
    r.renderBlock scope ⟨name, [], []⟩ [] body inverse = do
      let output ← r.invoke (r.blockCall scope name body inverse)
      return output.toText Text.escapeHtml := rfl

theorem invoke_helper {r : Renderer} {name : Text} {helper : Helper}
    (hget : r.helpers.get? (String.ofList name) = some helper) (scope : Scope) (body : Part)
    (inverse : Option Part) :
    r.invoke (r.blockCall scope name body inverse) =
      bound (String.ofList name) helper (r.blockCall scope name body inverse) := by
  simp [Renderer.invoke, Renderer.blockCall, helper?_eq_bound hget]

theorem invoke_section {r : Renderer} (hooks : r.helpers.leaveHooks = true) {name : Text}
    (free : isFreeName name = true) (hget : r.helpers.get? (String.ofList name) = none)
    {scope : Scope} {body : Part} {inverse : Option Part} {own : Option Found}
    (hown : (r.blockCall scope name body inverse).evaluateName name = .ok own) :
    r.invoke (r.blockCall scope name body inverse) =
      ((r.blockCall scope name body inverse).sectionOver own).map .markup := by
  have hrule : r.invoke (r.blockCall scope name body inverse) =
      sectionRule (r.blockCall scope name body inverse) := by
    simp [Renderer.invoke, Renderer.blockCall, helper?_eq_none free hget,
      helper?_sectionName hooks]
  rw [hrule, sectionRule, show (r.blockCall scope name body inverse).name = name from rfl, hown]
  rfl

section Tags

variable {r : Renderer} (hooks : r.helpers.leaveHooks = true) {scope : Scope}
  (plain : scope.IsPlain) {name : Text} (free : isFreeName name = true)
include hooks plain free

theorem renderOutput_ofName (lenient : r.strict = false) (escaped : Bool) :
    r.renderOutput scope (.path (.ofName name)) escaped = do
      let printed ← scope.stack.print r.helpers name
      return if escaped then Text.escapeHtml printed else printed := by
  have htext : (Path.ofName name).text = name := rfl
  rw [Stack.print, stack_helper? plain, ← plain.level_read? name, Renderer.renderOutput,
    Renderer.outputOf, htext]
  cases hget : r.helpers.get? (String.ofList name) with
  | none =>
    have hrule : r.helper? name = none := helper?_eq_none free hget
    rw [hrule, Option.isSome_none, if_neg Bool.false_ne_true, Renderer.argument,
      plain.evaluate_ofName, htext]
    cases hread : scope.read? name with
    | none =>
      have hnothing : r.outputNamed scope name ⟨none, name⟩ = .ok (.markup []) := by
        simp [Renderer.outputNamed, hrule, helper?_missingName hooks, lenient]
      calc _ = (r.outputNamed scope name ⟨none, name⟩ >>= fun output =>
            .ok (output.toText (if escaped then Text.escapeHtml else id))) := rfl
        _ = _ := by rw [hnothing]; cases escaped <;> rfl
    | some own =>
      have hvalue : r.outputNamed scope name ⟨some own, name⟩ =
          .ok (.plain (display own.value)) := by
        simp [Renderer.outputNamed, hrule]
      calc _ = (r.outputNamed scope name ⟨some own, name⟩ >>= fun output =>
            .ok (output.toText (if escaped then Text.escapeHtml else id))) := rfl
        _ = _ := by rw [hvalue, ite_self]; cases escaped <;> rfl
  | some helper =>
    have hrule := helper?_eq_bound hget
    have hown : Invocation.evaluateName ⟨name, [], [], [], none, none, scope, r.strict⟩ name =
        .ok (scope.read? name) := evaluateName_free plain free
    rw [hrule, Option.isSome_some, if_pos rfl, Renderer.outputNamed, hrule]
    simp only [bound_eq hown]
    cases hnear : (scope.read? name).filter (·.isNear) with
    | none => rfl
    | some found =>
      have hread : scope.read? name = some found := (Option.filter_eq_some_iff.1 hnear).1
      rw [hread]
      cases escaped <;> rfl

/-- A block renders for its rounds, or hands its text to the helper of its name. -/
theorem renderBlock_free (other : name ≠ "this".toList) {body : Part} {inverse : Option Part}
    {meaning otherwise : Stack → Except TemplateError Text} (hbody : Follows body meaning)
    (hinverse : Follows (inverse.getD fun _ => .ok []) otherwise) :
    r.renderBlock scope ⟨name, [], []⟩ [] body inverse =
      scope.stack.block r.helpers name meaning otherwise := by
  -- what the name of the block and its parts are in its call
  have hown : (r.blockCall scope name body inverse).evaluateName name =
      .ok (scope.read? name) := evaluateName_free plain free
  have hotherwise : (r.blockCall scope name body inverse).renderInverse =
      otherwise scope.stack := by
    rw [← hinverse scope plain, Invocation.renderInverse]
    cases inverse <;> rfl
  have hpart : (r.blockCall scope name body inverse).body = some body := rfl
  have hover := sectionOver_eq hpart hbody hotherwise plain
    fun found hfound => plain.isBelow_of_read? other hfound
  rw [plain.level_read?] at hover
  rw [renderBlock_eq, Stack.block, stack_helper? plain]
  cases hget : r.helpers.get? (String.ofList name) with
  | none =>
    rw [invoke_section hooks free hget hown, toText_markup, ite_self]
    exact hover
  | some helper =>
    rw [invoke_helper hget, bound_eq hown]
    cases hnear : (scope.read? name).filter (·.isNear) with
    | none =>
      -- nothing near has the name: the helper gets the text of the body
      have hfirst : (r.blockCall scope name body inverse).renderBody scope =
          meaning scope.stack := hbody scope plain
      rw [← hfirst]
      exact toText_markup _ _
    | some found =>
      have hread : scope.read? name = some found := (Option.filter_eq_some_iff.1 hnear).1
      rw [hread] at hover
      exact (toText_markup _ _).trans hover

end Tags

/-! ## Templates -/

section Elements

variable {r : Renderer} (lenient : r.strict = false) (hooks : r.helpers.leaveHooks = true)
include lenient hooks

theorem element_value {scope : Scope} (plain : scope.IsPlain) {name : Text}
    (free : isFreeName name = true) (place : Position) (escaped : Bool) :
    r.element scope (.output place (.path (.ofName name)) escaped) = do
      let printed ← scope.stack.print r.helpers name
      return if escaped then Text.escapeHtml printed else printed := by
  rw [Renderer.element, renderOutput_ofName hooks plain free lenient]
  exact IsPlaced.bind (scope.stack.print_isPlaced r.helpers name) (fun printed => .ok _) place

omit lenient in
theorem element_block {scope : Scope} (plain : scope.IsPlain) {name : Text}
    (free : isFreeName name = true) (other : name ≠ "this".toList) (place : Option Position)
    {body inverse : Outline} {inner : List Element} {otherwise : Option (List Element)}
    (hbody : Follows (fun scope => r.elements scope inner) (body.meaning r.helpers))
    (hinverse : Follows ((r.inversePart otherwise).getD fun _ => .ok [])
      (inverse.meaning r.helpers)) :
    r.element scope (.block place ⟨name, [], []⟩ [] inner otherwise) =
      scope.stack.block r.helpers name (body.meaning r.helpers) (inverse.meaning r.helpers) := by
  have hrender := renderBlock_free hooks plain free other hbody hinverse
  cases place with
  | none =>
    rw [Renderer.element]
    exact hrender
  | some place =>
    rw [Renderer.element, hrender]
    exact scope.stack.block_isPlaced r.helpers name (body.meaning_isPlaced r.helpers)
      (inverse.meaning_isPlaced r.helpers) place

/-- Elements render in a plain scope to what their outline means over its stack. -/
theorem elements_eq_meaning {outline : Outline} {elements : List Element}
    (describes : outline.Describes elements) :
    Follows (fun scope => r.elements scope elements) (outline.meaning r.helpers) := by
  -- along the outline; what a block holds is known for every plain scope, so for each round
  induction describes with
  | done => exact fun _ _ => rfl
  | text written next ih =>
    intro scope plain
    simp only [Renderer.elements, Renderer.element, Outline.meaning]
    rw [← ih scope plain]
    rfl
  | value place name escaped free next ih =>
    intro scope plain
    simp only [Renderer.elements, Outline.meaning, bind_assoc, pure_bind,
      element_value lenient hooks plain free]
    rw [← ih scope plain]
  | block place name free other within next hbody ih =>
    intro scope plain
    have hnothing : Follows ((r.inversePart none).getD fun _ => .ok [])
        (Outline.done.meaning r.helpers) := fun _ _ => rfl
    have hfirst := element_block hooks plain free other place hbody hnothing
    simp only [Renderer.elements, Outline.meaning, hfirst]
    rw [← ih scope plain]
  | blockElse place name free other within without next hbody hinverse ih =>
    intro scope plain
    have hotherwise : Follows ((r.inversePart (some _)).getD fun _ => .ok []) _ := hinverse
    have hfirst := element_block hooks plain free other place hbody hotherwise
    simp only [Renderer.elements, Outline.meaning, hfirst]
    rw [← ih scope plain]

end Elements

/-- Rendering a template of text, variables and sections gives the text that its outline
stands for over the root, or the error of the helper that fails first. -/
theorem render_eq_meaning {template : Template} {outline : Outline}
    (describes : outline.Describes template.elements) {members : Members}
    (flat : (Json.object members).isFlat = true) {helpers : Helpers}
    (hooks : helpers.leaveHooks = true) :
    template.render (.object members) helpers false =
      outline.meaning helpers (.ofRoot (.object members)) := by
  have plain : (Scope.ofData (.object members)).IsPlain := ⟨flat, rfl, nofun⟩
  exact elements_eq_meaning (r := ⟨helpers, false⟩) rfl hooks describes _ plain

/-- A section over a list inside of a helper: every item is a frame, and the helper gets the
text of all of them. -/
theorem render_eq_meaning_items :
    let template : Template := ⟨[.block (some ⟨1, 1⟩) ⟨"upper".toList, [], []⟩ []
      [.block (some ⟨1, 11⟩) ⟨"items".toList, [], []⟩ []
        [.output ⟨1, 21⟩ (.path (.ofName "name".toList)) true, .text ";".toList]
        (some [.text "none".toList])] none]⟩
    let outline : Outline := .block "upper".toList
      (.block "items".toList (.value "name".toList true (.text ";".toList .done))
        (.text "none".toList .done) .done) .done .done
    let members : Members := [("items", .array
      [.object [("name", .string "a&b")], .object [("name", .string "c")]])]
    let helpers : Helpers := ⟨[("upper", fun text => .ok (text.map Char.toUpper))]⟩
    outline.Describes template.elements ∧ (Json.object members).isFlat = true
      ∧ helpers.leaveHooks = true
      ∧ template.render (.object members) helpers false = .ok "A&AMP;B;C;".toList := by
  intro template outline members helpers
  have describes : outline.Describes template.elements := by
    refine .block _ _ (by decide) (by decide) ?_ .done
    refine .blockElse _ _ (by decide) (by decide) ?_ (.text _ .done) .done
    exact .value _ _ _ (by decide) (.text _ .done)
  have flat : (Json.object members).isFlat = true := by decide
  have hooks : helpers.leaveHooks = true := by decide
  exact ⟨describes, flat, hooks, (render_eq_meaning describes flat hooks).trans rfl⟩

/-- A helper with the name of the hook for sections takes every block over that is not a
helper itself: it gets the text of the body, whatever the name of the block stands for. -/
theorem renderBlock_section_hook {r : Renderer} {scope : Scope} (plain : scope.IsPlain)
    {name : Text} (free : isFreeName name = true)
    (hget : r.helpers.get? (String.ofList name) = none) {helper : Helper}
    (hhook : r.helpers.get? sectionName = some helper)
    (hnear : (scope.read? sectionName.toList).filter (·.isNear) = none) (body : Part)
    (inverse : Option Part) :
    r.renderBlock scope ⟨name, [], []⟩ [] body inverse =
      (body scope >>= fun text => (helper text).mapError (.helper sectionName.toList)) := by
  have hrule : r.helper? sectionName.toList =
      some (bound (String.ofList sectionName.toList) helper) :=
    helper?_eq_bound (by rw [String.ofList_toList]; exact hhook)
  have hinvoke : r.invoke (r.blockCall scope name body inverse) =
      bound (String.ofList sectionName.toList) helper (r.blockCall scope name body inverse) := by
    simp [Renderer.invoke, Renderer.blockCall, helper?_eq_none free hget, hrule]
  have hown : (r.blockCall scope name body inverse).evaluateName sectionName.toList =
      .ok (scope.read? sectionName.toList) := evaluateName_eq plain (by decide) (by decide)
  rw [renderBlock_eq, hinvoke, bound_eq hown, hnear]
  exact toText_markup _ _

/-- So a block over a name without a value gives text where its outline stands for none. -/
theorem render_section_hook :
    let template : Template :=
      ⟨[.block (some ⟨1, 1⟩) ⟨"n".toList, [], []⟩ [] [.text "x".toList] none]⟩
    let outline : Outline := .block "n".toList (.text "x".toList .done) .done .done
    let helpers : Helpers := ⟨[("blockHelperMissing", fun text => .ok ('[' :: text ++ [']']))]⟩
    outline.Describes template.elements ∧
      template.render (.object []) helpers false = .ok "[x]".toList ∧
      outline.meaning helpers (.ofRoot (.object [])) = .ok [] := by
  intro template outline helpers
  have free : isFreeName "n".toList = true := by decide
  have plain : (Scope.ofData (.object [])).IsPlain := ⟨rfl, rfl, nofun⟩
  have hblock (body : Part) (inverse : Option Part) :=
    renderBlock_section_hook (r := ⟨helpers, false⟩) plain free rfl rfl rfl body inverse
  refine ⟨.block _ _ free (by decide) (.text _ .done) .done, ?_, rfl⟩
  calc template.render (.object []) helpers false
      = (Renderer.atPlace ⟨1, 1⟩ (Renderer.renderBlock ⟨helpers, false⟩ (.ofData (.object []))
          ⟨"n".toList, [], []⟩ [] (fun inner => Renderer.elements ⟨helpers, false⟩ inner
            [.text "x".toList]) none) >>= fun text => .ok (text ++ [])) := rfl
    _ = .ok "[x]".toList := by rw [hblock]; rfl

end HubRules.Template
