import HubRules.Proofs.Template.Outline
import HubRules.Proofs.Text.Tokens

/-!
# Scopes as stacks

Frames are about places in the data, and paths are looked for through them. As long as
every frame lies below the root, is about no list and names nothing, a scope is a stack
of values (`Scope.stack`): a path of one name finds what the name stands for
(`Scope.IsPlain.evaluate_ofName`), with the same value on the stack, and as deep
(`Scope.IsPlain.level_read?`). A name is read as its path up to a character that ends it
(`path?_append`).
-/

namespace HubRules.Template

/-! ## Names -/

/-- A character that ends a name as well as a path: no symbol, and no separator of steps. -/
def endsPath (c : Char) : Bool := !isSymbol c && c != '.' && c != '/'

section Ends

variable {rest : Text} (ends : ∀ c ∈ rest.head?, endsPath c = true)
include ends

theorem isSymbol_of_ends : ∀ c ∈ rest.head?, isSymbol c = false := by
  intro c hc
  have h := ends c hc
  simp only [endsPath, Bool.and_eq_true, Bool.not_eq_true'] at h
  exact h.1.1

theorem afterSeparator?_of_ends : afterSeparator? rest = none := by
  cases rest with
  | nil => rfl
  | cons c cs =>
    have hslash : c ≠ '/' := Text.ne_of_test (ends c rfl) (by decide)
    have hdot : c ≠ '.' := Text.ne_of_test (ends c rfl) (by decide)
    simp [afterSeparator?, hslash, hdot]

theorem dropStart?_of_ends (name : Text) {word : Text} (hword : ∀ c ∈ word, isSymbol c = true) :
    Text.dropStart? word (name ++ rest) = (Text.dropStart? word name).map (· ++ rest) := by
  cases hdrop : Text.dropStart? word name with
  | some more =>
    rw [Text.dropStart?_eq_some_iff.1 hdrop, List.append_assoc]
    exact Text.dropStart?_append word _
  | none =>
    cases hlong : Text.dropStart? word (name ++ rest) with
    | none => rfl
    | some more =>
      rcases List.append_eq_append_iff.1 (Text.dropStart?_eq_some_iff.1 hlong) with
        ⟨beyond, hbeyond, hrest⟩ | ⟨within, hwithin, -⟩
      · -- what would reach over the end of the name begins with no symbol
        cases beyond with
        | nil =>
          rw [List.append_nil] at hbeyond
          simp [hbeyond, Text.dropStart?] at hdrop
        | cons c cs =>
          have hsymbol : isSymbol c = true := hword c (by simp [hbeyond])
          have hend : isSymbol c = false := isSymbol_of_ends ends c (by simp [hrest])
          rw [hend] at hsymbol
          cases hsymbol
      · rw [hwithin, Text.dropStart?_append] at hdrop
        cases hdrop

end Ends

section Symbols

variable {name : Text} (symbols : ∀ c ∈ name, isSymbol c = true)
include symbols

theorem not_mem_symbols {c : Char} (h : isSymbol c = false) : c ∉ name := by
  intro hc
  exact Text.ne_of_test (symbols c hc) h rfl

section Start

variable (nonempty : name ≠ []) (rest : Text)
include nonempty

theorem exists_symbol : ∃ c more, name ++ rest = c :: more ∧ isSymbol c = true := by
  obtain ⟨c, cs, rfl⟩ := List.exists_cons_of_ne_nil nonempty
  exact ⟨c, cs ++ rest, rfl, symbols c List.mem_cons_self⟩

theorem append_ne_sign {c : Char} (hc : isSymbol c = false) (behind : Text) :
    name ++ rest ≠ c :: behind := by
  obtain ⟨d, more, heq, hsymbol⟩ := exists_symbol symbols nonempty rest
  rw [heq]
  exact fun h => Text.ne_of_test hsymbol hc (List.cons.inj h).1

theorem climb_symbols : climb (name ++ rest) = (0, name ++ rest) := by
  unfold climb
  split
  · next h => exact absurd h (append_ne_sign symbols nonempty rest (by decide) _)
  · next h => exact absurd h (append_ne_sign symbols nonempty rest (by decide) _)
  · rfl

theorem dropStart?_of_not_symbol {c : Char} (word : Text) (hc : isSymbol c = false) :
    Text.dropStart? (c :: word) (name ++ rest) = none := by
  cases hdrop : Text.dropStart? (c :: word) (name ++ rest) with
  | none => rfl
  | some more =>
    exact absurd (Text.dropStart?_eq_some_iff.1 hdrop)
      (append_ne_sign symbols nonempty rest hc (word ++ more))

end Start

variable {rest : Text} (ends : ∀ c ∈ rest.head?, endsPath c = true)
include ends

theorem afterSeparator?_symbols : afterSeparator? (name ++ rest) = none := by
  cases name with
  | nil => exact afterSeparator?_of_ends ends
  | cons c cs =>
    have hslash : c ≠ '/' := Text.ne_of_test (symbols c List.mem_cons_self) (by decide)
    have hdot : c ≠ '.' := Text.ne_of_test (symbols c List.mem_cons_self) (by decide)
    simp [afterSeparator?, hslash, hdot]

variable (nonempty : name ≠ [])
include nonempty

theorem name?_append : name? (name ++ rest) = some (name, rest) := by
  have whole : (name ++ rest).takeWhile isSymbol = name :=
    Text.takeWhile_append_stop symbols (isSymbol_of_ends ends)
  simp [name?, whole, nonempty]

theorem step?_symbols : step? (name ++ rest) = some (name, rest) := by
  unfold step?
  split
  · next h => exact absurd h (append_ne_sign symbols nonempty rest (by decide) _)
  · exact name?_append symbols ends nonempty

theorem path?_append : path? (name ++ rest) = some (.ofName name, rest) := by
  have hthis : (Text.dropStart? "this".toList (name ++ rest)).bind afterSeparator? = none := by
    rw [dropStart?_of_ends ends name (by decide)]
    cases hdrop : Text.dropStart? "this".toList name with
    | none => rfl
    | some more =>
      have heq : name = "this".toList ++ more := Text.dropStart?_eq_some_iff.1 hdrop
      exact afterSeparator?_symbols
        (fun c hc => symbols c (heq ▸ List.mem_append_right "this".toList hc)) ends
  have hdot : Text.dropStart? "./".toList (name ++ rest) = none :=
    dropStart?_of_not_symbol symbols nonempty rest _ (by decide)
  have hroot : Text.dropStart? "@root".toList (name ++ rest) = none :=
    dropStart?_of_not_symbol symbols nonempty rest _ (by decide)
  have hat : Text.dropStart? ['@'] (name ++ rest) = none :=
    dropStart?_of_not_symbol symbols nonempty rest _ (by decide)
  have hsteps : stepsFrom rest.length rest = ([], rest) := by
    cases hlength : rest.length with
    | zero => rfl
    | succ n => simp [stepsFrom, afterSeparator?_of_ends ends]
  have hwritten := Text.take_length_sub name rest
  simp only [path?, hthis, hdot, hroot, hat, climb_symbols symbols nonempty, hsteps, hwritten,
    step?_symbols symbols ends nonempty, Option.getD_none, Option.bind_none, Option.isSome_none,
    Option.bind_eq_bind, Option.bind_some, Option.pure_def, Path.ofName]
  by_cases h : name = "this".toList
  · subst h
    rfl
  · simp only [List.filter_cons, List.filter_nil, h, ne_eq, not_false_eq_true, decide_true,
      if_true, if_false, List.map_cons, List.map_nil, Bool.false_eq_true]

omit ends in
theorem path?_ofName : path? name = some (.ofName name, []) := by
  have hends : ∀ c ∈ ([] : Text).head?, endsPath c = true := by simp
  simpa using path?_append symbols hends nonempty

end Symbols

/-! ## Scopes and stacks -/

/-- What a found value is on a stack. -/
def Found.level (found : Found) : Level := ⟨found.value, found.isNear⟩

/-- A flat value below the root of the data. -/
structure Found.IsBelow (found : Found) : Prop where
  depth : ∃ depth, found.depth = some (depth + 1)
  flat : found.value.isFlat = true

/-- A frame about such a value, which is no list. -/
structure Frame.IsPlain (frame : Frame) : Prop where
  about : frame = .about frame.focus
  below : frame.focus.IsBelow
  single : frame.focus.value.isArray = false

/-- The member of a found value that has a name. -/
def Found.member? (found : Found) (name : String) : Option Found :=
  (found.value.get? name).map fun value => ⟨value, found.depth.map (· + 1)⟩

namespace Scope

/-- The values of a scope, without their places. -/
def stack (scope : Scope) : Stack := ⟨scope.frames.map (·.focus.level), scope.data⟩

/-- All frames of a scope are plain, and its data is flat and no list. -/
structure IsPlain (scope : Scope) : Prop where
  flat : scope.data.isFlat = true
  single : scope.data.isArray = false
  frames : ∀ frame ∈ scope.frames, frame.IsPlain

/-- What a name stands for in a scope. -/
def read? (scope : Scope) (name : Text) : Option Found :=
  if name = "this".toList then some scope.inner.focus
  else (scope.allFrames.map (·.focus)).findSome? (·.member? (String.ofList name))

theorem inner_focus_mem (scope : Scope) : scope.inner.focus ∈ scope.allFrames.map (·.focus) := by
  refine List.mem_map_of_mem ?_
  unfold inner allFrames
  cases scope.frames <;> simp

theorem stack_push (scope : Scope) (found : Found) :
    (scope.push (.about found)).stack = scope.stack.push found.level := rfl

theorem IsPlain.push {scope : Scope} (plain : scope.IsPlain) {found : Found}
    (below : found.IsBelow) (single : found.value.isArray = false) :
    (scope.push (.about found)).IsPlain where
  flat := plain.flat
  single := plain.single
  frames := by
    intro frame hframe
    rcases List.mem_cons.1 hframe with rfl | hframe
    · exact ⟨rfl, below, single⟩
    · exact plain.frames frame hframe

end Scope

theorem stepInto_of_single {value : Json} (single : value.isArray = false) (name : String) :
    stepInto value name = .ok (value.get? name) := by
  cases value with
  | array items => cases single
  | _ => rfl

theorem Found.follow_of_single {found : Found} (single : found.value.isArray = false)
    (name : String) : found.follow [name] = .ok (found.member? name) := by
  cases h : found.value.get? name <;>
    simp [Found.follow, Template.follow, stepInto_of_single single, Found.member?, h, bind,
      Except.bind, pure, Except.pure]

/-- The search for the owner of a name and the step from there are a search for a member. -/
theorem follow_owner {foci : List Found} {name : String}
    (h : ∀ focus ∈ foci, focus.depth.isSome ∧ focus.value.isArray = false) :
    (match foci.find? fun focus =>
        focus.depth.isSome && (stepInto focus.value name).toOption.join.isSome with
      | some owner => owner.follow [name]
      | none => .ok none) = .ok (foci.findSome? (·.member? name)) := by
  induction foci with
  | nil => rfl
  | cons focus foci ih =>
    obtain ⟨placed, single⟩ := h focus List.mem_cons_self
    have hrest := ih fun other hother => h other (List.mem_cons_of_mem _ hother)
    -- the first focus with a member of that name ends both searches
    cases hmember : focus.value.get? name with
    | none =>
      simp only [List.find?_cons, List.findSome?_cons, stepInto_of_single single, hmember]
      simpa [Found.member?, hmember, placed, Except.toOption] using hrest
    | some value =>
      simp only [List.find?_cons, List.findSome?_cons, stepInto_of_single single, hmember]
      simp [Found.follow_of_single single, Found.member?, hmember, placed, Except.toOption]

namespace Scope.IsPlain

variable {scope : Scope} (plain : scope.IsPlain)
include plain

theorem placed {focus : Found} (h : focus ∈ scope.allFrames.map (·.focus)) :
    focus.depth.isSome ∧ focus.value.isArray = false := by
  obtain ⟨frame, hframe, rfl⟩ := List.mem_map.1 h
  rcases List.mem_append.1 hframe with hframe | hframe
  · obtain ⟨depth, hdepth⟩ := (plain.frames frame hframe).below.depth
    exact ⟨by simp [hdepth], (plain.frames frame hframe).single⟩
  · obtain rfl := List.mem_singleton.1 hframe
    exact ⟨rfl, plain.single⟩

theorem named?_eq_none (name : String) : scope.named? name = none := by
  refine List.findSome?_eq_none_iff.2 fun frame hframe => ?_
  rw [(plain.frames frame hframe).about]
  rfl

theorem evaluate_ofName (name : Text) : scope.evaluate (.ofName name) = .ok (scope.read? name) := by
  by_cases h : name = "this".toList
  · simp only [Path.ofName, evaluate, read?, if_pos h]
  · have hinner : scope.inner.focus.depth.isNone = false := by
      simpa using (plain.placed scope.inner_focus_mem).1
    simp only [Path.ofName, evaluate, read?, if_neg h, plain.named?_eq_none, hinner,
      Bool.false_eq_true, if_false]
    exact follow_owner fun focus hfocus => plain.placed hfocus

end Scope.IsPlain

theorem Found.IsBelow.level_member? {found : Found} (below : found.IsBelow) (name : String) :
    (found.member? name).map level = (found.value.get? name).map (⟨·, true⟩) := by
  obtain ⟨depth, hdepth⟩ := below.depth
  simp [Found.member?, Option.map_map, Function.comp_def, level, isNear, hdepth]

theorem Scope.level_member?_root (scope : Scope) (name : String) :
    (scope.root.member? name).map Found.level = (scope.data.get? name).map (⟨·, false⟩) := by
  simp [Found.member?, Option.map_map, Function.comp_def, Found.level, Found.isNear, root]

theorem Found.isBelow_of_member? {found inner : Found} {name : String}
    (placed : found.depth.isSome) (flat : found.value.isFlat = true)
    (h : found.member? name = some inner) : inner.IsBelow := by
  obtain ⟨value, hvalue, rfl⟩ := Option.map_eq_some_iff.1 h
  obtain ⟨depth, hdepth⟩ := Option.isSome_iff_exists.1 placed
  exact ⟨⟨depth, by simp [hdepth]⟩, Json.isFlat_of_get? flat hvalue⟩

/-- Members in plain frames are members of the values that were pushed. -/
theorem level_findSome?_frames {frames : List Frame} (plain : ∀ frame ∈ frames, frame.IsPlain)
    (name : String) :
    (frames.findSome? (·.focus.member? name)).map Found.level =
      ((frames.map (·.focus.level)).findSome? (·.value.get? name)).map (⟨·, true⟩) := by
  induction frames with
  | nil => rfl
  | cons frame frames ih =>
    have hrest := ih fun other hother => plain other (List.mem_cons_of_mem _ hother)
    have hmember := (plain frame List.mem_cons_self).below.level_member? name
    simp only [List.map_cons, List.findSome?_cons]
    cases hvalue : frame.focus.value.get? name with
    | none => simpa [Found.member?, hvalue, Found.level] using hrest
    | some value => simpa [Found.member?, hvalue, Found.level] using hmember

namespace Scope.IsPlain

variable {scope : Scope} (plain : scope.IsPlain)
include plain

/-- A name stands for the same thing in a scope and on its stack. -/
theorem level_read? (name : Text) :
    (scope.read? name).map Found.level = scope.stack.read? name := by
  by_cases h : name = "this".toList
  · simp only [read?, Stack.read?, if_pos h, Option.map_some]
    cases hframes : scope.frames <;>
      simp [inner, stack, Stack.top, hframes, rootFrame, Frame.about, root, Found.level,
        Found.isNear]
  · have hroot : ([scope.rootFrame].map (·.focus)).findSome? (·.member? (String.ofList name))
        = scope.root.member? (String.ofList name) := by
      rw [List.map_singleton, List.findSome?_singleton]
      rfl
    calc (scope.read? name).map Found.level
        = ((scope.frames.findSome? (·.focus.member? (String.ofList name))).map Found.level).or
            ((scope.root.member? (String.ofList name)).map Found.level) := by
          rw [read?, if_neg h, allFrames, List.map_append, List.findSome?_append, hroot,
            List.findSome?_map, Option.map_or]
          rfl
      _ = scope.stack.read? name := by
          rw [level_findSome?_frames plain.frames, scope.level_member?_root, Stack.read?, if_neg h]
          rfl

/-- What a name other than `this` stands for lies below the root. -/
theorem isBelow_of_read? {name : Text} (other : name ≠ "this".toList) {own : Found}
    (h : scope.read? name = some own) : own.IsBelow := by
  rw [read?, if_neg other] at h
  obtain ⟨focus, hfocus, hmember⟩ := List.exists_of_findSome?_eq_some h
  refine Found.isBelow_of_member? (plain.placed hfocus).1 ?_ hmember
  obtain ⟨frame, hframe, rfl⟩ := List.mem_map.1 hfocus
  rcases List.mem_append.1 hframe with hframe | hframe
  · exact (plain.frames frame hframe).below.flat
  · obtain rfl := List.mem_singleton.1 hframe
    exact plain.flat

end Scope.IsPlain

end HubRules.Template
