import HubRules.Template.Render

/-!
# Outlines of templates

A template of text, variables and blocks that name values has a meaning over a stack
of values: no path into the data, no position in the source and no hook is part of it
(`Outline.meaning`). An outline is such a template without the places of its tags, and
`Outline.Describes` says which elements it is the outline of.
-/

namespace HubRules

namespace Json

def isArray : Json → Bool
  | .array _ => true
  | _ => false

mutual

/-- Whether no list of a value has a list among its items. -/
def isFlat : Json → Bool
  | .array items => areFlatItems items
  | .object members => areFlatMembers members
  | _ => true

/-- Whether items are no lists, and flat. -/
def areFlatItems : List Json → Bool
  | [] => true
  | item :: items => !item.isArray && item.isFlat && areFlatItems items

def areFlatMembers : List (String × Json) → Bool
  | [] => true
  | (_, value) :: members => value.isFlat && areFlatMembers members

end

theorem areFlatItems_iff {items : List Json} :
    areFlatItems items = true ↔
      ∀ item ∈ items, item.isArray = false ∧ item.isFlat = true := by
  induction items with
  | nil => simp [areFlatItems]
  | cons item items ih => simp [areFlatItems, ih]

theorem isFlat_of_lookup {members : Members} {name : String} {value : Json}
    (flat : areFlatMembers members = true) (found : members.lookup name = some value) :
    value.isFlat = true := by
  induction members with
  | nil => cases found
  | cons member members ih =>
    obtain ⟨key, first⟩ := member
    simp only [areFlatMembers, Bool.and_eq_true] at flat
    rw [List.lookup_cons] at found
    split at found
    · rw [← Option.some.inj found]
      exact flat.1
    · exact ih flat.2 found

theorem isFlat_of_get? {value inner : Json} {name : String} (flat : value.isFlat = true)
    (found : value.get? name = some inner) : inner.isFlat = true := by
  cases value with
  | object members => exact isFlat_of_lookup flat found
  | _ => cases found

end Json

/-- Whether no helper has the name of a hook, so that blocks and variables without a
helper are values. -/
def Helpers.leaveHooks (helpers : Helpers) : Bool :=
  !helpers.contains Template.sectionName && !helpers.contains Template.missingName

namespace Template

/-! ## Outlines -/

/-- The path that a name is read as. The name `this` stays where it is. -/
def Path.ofName (name : Text) : Path :=
  ⟨.frame 0, if name = "this".toList then [] else [String.ofList name], name⟩

/-- Whether a text is a name, and neither built in nor a hook. -/
def isFreeName (name : Text) : Bool :=
  !name.isEmpty && name.all isSymbol && (Builtin.find? (String.ofList name)).isNone
    && String.ofList name != sectionName && String.ofList name != missingName

theorem isFreeName_iff {name : Text} :
    isFreeName name = true ↔
      name ≠ [] ∧ (∀ c ∈ name, isSymbol c = true) ∧
        Builtin.find? (String.ofList name) = none ∧
        String.ofList name ≠ sectionName ∧ String.ofList name ≠ missingName := by
  simp [isFreeName, and_assoc]

/-- Text, variables and blocks that name values, one after the other. -/
inductive Outline where
  | done
  | text (text : Text) (rest : Outline)
  | value (name : Text) (escaped : Bool) (rest : Outline)
  | block (name : Text) (body inverse rest : Outline)

/-- The elements that an outline is the outline of. A block without an `else` has
nothing there. -/
inductive Outline.Describes : Outline → List Element → Prop where
  | done : Describes .done []
  | text (text : Text) {rest : Outline} {elements : List Element}
      (next : Describes rest elements) :
      Describes (.text text rest) (.text text :: elements)
  | value (place : Position) (name : Text) (escaped : Bool) (free : isFreeName name = true)
      {rest : Outline} {elements : List Element} (next : Describes rest elements) :
      Describes (.value name escaped rest)
        (.output place (.path (.ofName name)) escaped :: elements)
  | block (place : Option Position) (name : Text) (free : isFreeName name = true)
      (other : name ≠ "this".toList) {body rest : Outline} {inner elements : List Element}
      (within : Describes body inner) (next : Describes rest elements) :
      Describes (.block name body .done rest)
        (.block place ⟨name, [], []⟩ [] inner none :: elements)
  | blockElse (place : Option Position) (name : Text) (free : isFreeName name = true)
      (other : name ≠ "this".toList) {body inverse rest : Outline}
      {inner otherwise elements : List Element} (within : Describes body inner)
      (without : Describes inverse otherwise) (next : Describes rest elements) :
      Describes (.block name body inverse rest)
        (.block place ⟨name, [], []⟩ [] inner (some otherwise) :: elements)

/-! ## Stacks of values -/

/-- What a name stands for: a value, and whether it lies deeper than the members of the
root. -/
structure Level where
  value : Json
  isDeep : Bool

/-- The values that blocks have pushed, from the innermost one on, over the root. -/
structure Stack where
  pushed : List Level
  root : Json

namespace Stack

/-- Nothing but the root. -/
def ofRoot (root : Json) : Stack := ⟨[], root⟩

def push (stack : Stack) (level : Level) : Stack := { stack with pushed := level :: stack.pushed }

def top (stack : Stack) : Level := stack.pushed.headD ⟨stack.root, false⟩

/-- The member that the innermost object with a name has. -/
def find? (stack : Stack) (name : String) : Option Level :=
  ((stack.pushed.findSome? (·.value.get? name)).map (⟨·, true⟩)).or
    ((stack.root.get? name).map (⟨·, false⟩))

/-- What a name stands for; `this` is the innermost value. -/
def read? (stack : Stack) (name : Text) : Option Level :=
  if name = "this".toList then some stack.top else stack.find? (String.ofList name)

/-- The helper of a name, unless something deeper than the members of the root has that
name as well. -/
def helper? (stack : Stack) (helpers : Helpers) (name : Text) : Option Helper :=
  if (stack.read? name).any (·.isDeep) then none else helpers.get? (String.ofList name)

/-- The text of a variable. A helper has none. -/
def print (stack : Stack) (helpers : Helpers) (name : Text) : Except TemplateError Text :=
  match stack.helper? helpers name with
  | some _ => .error (.helperAsVariable name)
  | none => .ok ((stack.read? name).elim [] (display ·.value))

/-- The stacks over which the body of a block is rendered, one after the other: one for
each item of a list, the same one for `true`, one more value for another that counts as
true, and none at all otherwise. -/
def rounds (stack : Stack) : Option Level → List Stack
  | none => []
  | some level =>
    match level.value with
    | .array items => items.map fun item => stack.push ⟨item, true⟩
    | .bool true => [stack]
    | value => if value.isTruthy then [stack.push level] else []

/-- The text of a block: its body handed to the helper of its name, or its body for every
round, or what follows its `else` if there is no round. -/
def block (stack : Stack) (helpers : Helpers) (name : Text)
    (body inverse : Stack → Except TemplateError Text) : Except TemplateError Text :=
  match stack.helper? helpers name with
  | some helper => do
    let text ← body stack
    (helper text).mapError (.helper name)
  | none =>
    match stack.rounds (stack.read? name) with
    | [] => inverse stack
    | rounds => return (← rounds.mapM body).flatten

end Stack

/-- What an outline stands for over a stack of values. -/
def Outline.meaning (helpers : Helpers) : Outline → Stack → Except TemplateError Text
  | .done, _ => .ok []
  | .text written rest, stack => return written ++ (← rest.meaning helpers stack)
  | .value name escaped rest, stack => do
    let printed ← stack.print helpers name
    return (if escaped then Text.escapeHtml printed else printed)
      ++ (← rest.meaning helpers stack)
  | .block name body inverse rest, stack => do
    let rendered ← stack.block helpers name (body.meaning helpers) (inverse.meaning helpers)
    return rendered ++ (← rest.meaning helpers stack)

end Template

end HubRules
