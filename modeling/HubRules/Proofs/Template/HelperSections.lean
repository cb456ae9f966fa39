import HubRules.Proofs.Template.Sections
import HubRules.Proofs.Template.Written

/-!
# Sections of helpers

What the section of a helper renders to over the root of the data, where no member can take
the place of the helper: the helper's answer for the text of the body, or its error
(`renderText_helper`). With a section over a list in its body, the helper that drops a
trailing separator joins the items of the list (`renderText_join`).
-/

namespace HubRules.Template

/-! ## Names at the root -/

/-- The scope of a template over members, outside of all blocks. -/
def Scope.ofMembers (members : Members) : Scope := .ofData (.object members)

section Root

variable {r : Renderer} {members : Members} {name : Text}

theorem evaluate_ofMembers (other : name ≠ "this".toList) :
    (Scope.ofMembers members).evaluate (.ofName name) =
      .ok ((members.get? (String.ofList name)).map (⟨·, some 1⟩)) := by
  have hroot : ∀ focus ∈ [(Scope.ofMembers members).root],
      focus.depth.isSome ∧ focus.value.isArray = false := by
    simp [Scope.root, Scope.ofMembers, Scope.ofData, Json.isArray]
  have howner := @follow_owner _ (String.ofList name) hroot
  have hnamed : (Scope.ofMembers members).named? (String.ofList name) = none := rfl
  have hplaced : (Scope.ofMembers members).inner.focus.depth.isNone = false := rfl
  simp only [Path.ofName, Scope.evaluate, if_neg other, hnamed, hplaced, Bool.false_eq_true,
    if_false]
  rw [List.findSome?_singleton] at howner
  exact howner

theorem evaluateName_ofMembers {call : Invocation} (outside : call.scope = .ofMembers members)
    (isName : IsName name) (other : name ≠ "this".toList) :
    call.evaluateName name =
      .ok ((members.get? (String.ofList name)).map (⟨·, some 1⟩)) := by
  rw [Invocation.evaluateName, path?_ofName isName.symbols isName.nonempty]
  simp only [Invocation.evaluate, outside, evaluate_ofMembers other]
  rfl

/-- No member of the root is near enough to take the place of a helper. -/
theorem renderBlock_helper (isName : IsName name) (other : name ≠ "this".toList)
    {helper : Helper} (hget : r.helpers.get? (String.ofList name) = some helper) (body : Part)
    (inverse : Option Part) :
    r.renderBlock (.ofMembers members) ⟨name, [], []⟩ [] body inverse =
      (body (.ofMembers members) >>= fun text => (helper text).mapError (.helper name)) := by
  have hown : (r.blockCall (.ofMembers members) name body inverse).evaluateName name = _ :=
    evaluateName_ofMembers rfl isName other
  have hfar : (((members.get? (String.ofList name)).map (⟨·, some 1⟩) : Option Found).filter
      (·.isNear)) = none := by
    cases members.get? (String.ofList name) <;> rfl
  rw [renderBlock_eq, invoke_helper hget, bound_eq hown, hfar]
  exact toText_markup _ _

theorem element_helper (isName : IsName name) (other : name ≠ "this".toList)
    {helper : Helper} (hget : r.helpers.get? (String.ofList name) = some helper)
    {body : List Element} {text : Text} (hbody : r.elements (.ofMembers members) body = .ok text)
    (place : Position) :
    r.element (.ofMembers members) (.block (some place) ⟨name, [], []⟩ [] body none) =
      (helper text).mapError (.helper name) := by
  rw [Renderer.element, renderBlock_helper isName other hget, hbody]
  exact IsPlaced.ofHelper name (helper text) place

end Root

theorem elements_singleton (r : Renderer) (scope : Scope) (element : Element) :
    r.elements scope [element] = r.element scope element := by
  rw [Renderer.elements]
  cases h : r.element scope element with
  | error cause => rfl
  | ok text =>
    show Except.ok (text ++ []) = Except.ok text
    rw [List.append_nil]

theorem elements_textElements (r : Renderer) (scope : Scope) (text : Text) :
    r.elements scope (textElements text) = .ok text := by
  cases text with
  | nil => rfl
  | cons c cs => exact elements_singleton r scope (.text (c :: cs))

theorem parse_block {name inner : Text} (isName : IsName name) (plain : IsPlainText inner)
    {body : TagTree} (writable : body.Writable) :
    ∃ place, parse (TagTree.block name inner body [] .done).source =
      .ok ⟨[.block (some Position.start) ⟨name, [], []⟩ []
        (textElements inner ++ body.elements place) none]⟩ :=
  ⟨_, parse_source isPlainText_nil (.block isName plain writable isPlainText_nil .done)⟩

/-- A template that is one section of a helper renders to what the helper makes of the text
of the body. -/
theorem renderText_section {helpers : Helpers} {name : Text} (isName : IsName name)
    (other : name ≠ "this".toList) {helper : Helper}
    (hget : helpers.get? (String.ofList name) = some helper) {inner : Text}
    (plain : IsPlainText inner) {body : TagTree} (writable : body.Writable) {members : Members}
    {strict : Bool} {text : Text}
    (hbody : ∀ place, Renderer.elements ⟨helpers, strict⟩ (.ofMembers members)
      (textElements inner ++ body.elements place) = .ok text) :
    renderText (TagTree.block name inner body [] .done).source (.object members) helpers strict =
      (helper text).mapError (.helper name) := by
  obtain ⟨place, hparse⟩ := parse_block isName plain writable
  rw [renderText, hparse]
  exact (elements_singleton _ _ _).trans
    (element_helper isName other hget (hbody place) Position.start)

/-! ## A helper on its own -/

/-- The section of a helper around a text, as it is written. -/
def sectionText (name : String) (text : Text) : Text :=
  ("\x7b\x7b#" ++ name ++ "\x7d\x7d").toList ++ text ++
    ("\x7b\x7b/" ++ name ++ "\x7d\x7d").toList

theorem isName_of_contains {scope : HelperScope} {name : String}
    (h : scope.helpers.contains name = true) :
    IsName name.toList ∧ name.toList ≠ "this".toList := by
  have hall : ∀ other ∈ scope.helpers.names, other.toList ≠ [] ∧
      (∀ c ∈ other.toList, isSymbol c = true) ∧ other.toList ≠ "this".toList := by
    show ∀ other ∈ ["branch_maps", "jenkins_artifact", "jenkins_redirect", "jenkins_report",
      "jenkins_rewrite", "join", "path", "port", "proxy_rewrite", "upstream", "url"], _
    decide
  obtain ⟨entry, hentry, heq⟩ := List.lookup_isSome_iff.1 h
  obtain rfl : name = entry.1 := eq_of_beq heq
  obtain ⟨nonempty, symbols, other⟩ := hall entry.1 (List.mem_map_of_mem hentry)
  exact ⟨⟨nonempty, symbols⟩, other⟩

/-- Calling a helper of a build on a text is rendering its section around that text: the same
output, and the same error, strictly or not and whatever the data is. -/
theorem renderText_helper (scope : HelperScope) {name : String}
    (registered : scope.helpers.contains name = true) {text : Text}
    (plain : ∀ c ∈ text, c ∉ ['\x7b', '\x7d', '\\', '\n', '\r']) (members : Members)
    (strict : Bool) :
    renderText (sectionText name text) (.object members) scope.helpers strict =
      scope.helpers.call name text := by
  obtain ⟨isName, other⟩ := isName_of_contains registered
  obtain ⟨helper, hget⟩ := Option.isSome_iff_exists.1 registered
  have hwritten : sectionText name text =
      (TagTree.block name.toList text .done [] .done).source := by
    simp [sectionText, TagTree.source, TagTree.write, NameTag.text, NameTag.sign]
  have hbody (place : Position) : Renderer.elements ⟨scope.helpers, strict⟩ (.ofMembers members)
      (textElements text ++ TagTree.done.elements place) = .ok text := by
    rw [TagTree.elements, List.append_nil]
    exact elements_textElements _ _ text
  have hname : scope.helpers.get? (String.ofList name.toList) = some helper := by
    rw [String.ofList_toList]
    exact hget
  rw [hwritten, renderText_section isName other hname plain .done hbody, Helpers.call, hget]
  rfl

/-- A helper that answers, and one that does not get the two arguments that it reads. -/
theorem renderText_helper_answers :
    let scope : HelperScope := ⟨.empty, .httpd⟩
    scope.helpers.contains "join" = true ∧ scope.helpers.contains "jenkins_redirect" = true
      ∧ renderText (sectionText "join" "a, b;".toList) (.object []) scope.helpers true =
        .ok "a, b".toList
      ∧ renderText (sectionText "jenkins_redirect" "/old".toList) (.object []) scope.helpers
          false = .error (.helper "jenkins_redirect".toList
            (.arguments .redirectRule "/old".toList)) := by
  intro scope
  have hjoin : scope.helpers.contains "join" = true := rfl
  have hredirect : scope.helpers.contains "jenkins_redirect" = true := rfl
  exact ⟨hjoin, hredirect, (renderText_helper scope hjoin (by decide) [] true).trans rfl,
    (renderText_helper scope hredirect (by decide) [] false).trans rfl⟩

/-! ## Lists in sections -/

section Items

variable {r : Renderer}

theorem renderOver_eq_ok {call : Invocation} {body : Part} (hcall : call.body = some body)
    {write : Json → Text} {foci : List Found}
    (h : ∀ focus ∈ foci, body (call.scope.push (.about focus)) = .ok (write focus.value)) :
    call.renderOver (foci.map .about) = .ok (foci.flatMap fun focus => write focus.value) := by
  induction foci with
  | nil => rfl
  | cons focus foci ih =>
    have hfirst : call.renderBody (call.scope.push (.about focus)) = .ok (write focus.value) := by
      rw [Invocation.renderBody, hcall]
      exact h focus List.mem_cons_self
    have hrest := ih fun other hother => h other (List.mem_cons_of_mem _ hother)
    rw [List.map_cons, Invocation.renderOver, hfirst, hrest]
    rfl

/-- A section over a list of the root gives what its body gives for each of the items. -/
theorem renderBlock_items (hooks : r.helpers.leaveHooks = true) {name : Text}
    (free : isFreeName name = true) (other : name ≠ "this".toList)
    (hget : r.helpers.get? (String.ofList name) = none) {members : Members} {items : List Json}
    (hitems : members.get? (String.ofList name) = some (.array items)) {body : Part}
    {write : Json → Text}
    (hbody : ∀ item ∈ items,
      body ((Scope.ofMembers members).push (.about ⟨item, some 2⟩)) = .ok (write item)) :
    r.renderBlock (.ofMembers members) ⟨name, [], []⟩ [] body none = .ok (items.flatMap write) := by
  obtain ⟨nonempty, symbols, -⟩ := isFreeName_iff.1 free
  have hown : (r.blockCall (.ofMembers members) name body none).evaluateName name =
      .ok (some ⟨.array items, some 1⟩) := by
    rw [evaluateName_ofMembers rfl ⟨nonempty, symbols⟩ other, hitems]
    rfl
  have hover : (r.blockCall (.ofMembers members) name body none).sectionOver
      (some ⟨.array items, some 1⟩) = .ok (items.flatMap write) := by
    have hitem : ∀ focus ∈ Invocation.itemsOf ⟨.array items, some 1⟩ items,
        body ((Scope.ofMembers members).push (.about focus)) = .ok (write focus.value) := by
      intro focus hfocus
      obtain ⟨item, hitem, rfl⟩ := List.mem_map.1 hfocus
      exact hbody item hitem
    have hrounds : (r.blockCall (.ofMembers members) name body none).renderOver
        ((Invocation.itemsOf ⟨.array items, some 1⟩ items).map .about) = _ :=
      renderOver_eq_ok rfl hitem
    rw [Invocation.itemsOf, List.flatMap_map] at hrounds
    cases items with
    | nil => rfl
    | cons item items => exact hrounds
  rw [renderBlock_eq, invoke_section hooks free hget hown, toText_markup, hover]

theorem element_this (hget : r.helpers.get? "this" = none) (scope : Scope) (place : Position) :
    r.element scope (.output place (.path (.ofName "this".toList)) true) =
      .ok (Text.escapeHtml (display scope.inner.focus.value)) := by
  have hnone : r.helper? "this".toList = none := helper?_eq_none (by decide) hget
  have htext : (Path.ofName "this".toList).text = "this".toList := rfl
  have hargument : r.argument scope (.path (.ofName "this".toList)) =
      .ok ⟨some scope.inner.focus, "this".toList⟩ := rfl
  have hnamed : r.outputNamed scope "this".toList ⟨some scope.inner.focus, "this".toList⟩ =
      .ok (.plain (display scope.inner.focus.value)) := by
    rw [Renderer.outputNamed, hnone]
  rw [Renderer.element, Renderer.renderOutput, Renderer.outputOf, htext, hnone, hargument]
  simp only [Option.isSome_none, Bool.false_eq_true, if_false, bind, Except.bind, hnamed]
  rfl

end Items

/-! ## Joining a list -/

/-- The items of a list, each in front of a separator, between the tags of a section. -/
def itemsTree (name : Text) (separator : Char) : TagTree :=
  .block name [] (.value "this".toList [separator] .done) [] .done

theorem itemsTree_writable {name : Text} (isName : IsName name) {separator : Char}
    (plain : IsPlainText [separator]) : (itemsTree name separator).Writable := by
  have takes : NameTag.value.Takes "this".toList := ⟨⟨by decide, by decide⟩, fun _ => rfl⟩
  exact .block isName isPlainText_nil (.value takes plain .done) isPlainText_nil .done

theorem elements_itemsTree {r : Renderer} (hooks : r.helpers.leaveHooks = true) {name : Text}
    (free : isFreeName name = true) (other : name ≠ "this".toList)
    (hget : r.helpers.get? (String.ofList name) = none)
    (hthis : r.helpers.get? "this" = none) {members : Members} {xs : List String}
    (hitems : members.get? (String.ofList name) = some (.ofStrings xs)) (separator : Char)
    (place : Position) :
    r.elements (.ofMembers members) ((itemsTree name separator).elements place) =
      .ok ((xs.map fun x => Text.escapeHtml x.toList).flatMap (· ++ [separator])) := by
  have hbody (inner : Position) : ∀ item ∈ xs.map Json.string,
      r.elements ((Scope.ofMembers members).push (.about ⟨item, some 2⟩))
        ((TagTree.value "this".toList [separator] .done).elements inner) =
      .ok (Text.escapeHtml (display item) ++ [separator]) := by
    intro item _
    show r.elements _ [_, .text [separator]] = _
    rw [Renderer.elements, element_this hthis, elements_singleton]
    rfl
  have hblock : r.renderBlock (.ofMembers members) ⟨name, [], []⟩ []
      (fun scope => r.elements scope ((TagTree.value "this".toList [separator] .done).elements
        (place.afterText (NameTag.opening.text name ++ [])))) none =
      .ok ((xs.map Json.string).flatMap fun item =>
        Text.escapeHtml (display item) ++ [separator]) :=
    renderBlock_items hooks free other hget hitems (hbody _)
  rw [List.flatMap_map] at hblock ⊢
  show r.elements _ [.block (some place) ⟨name, [], []⟩ [] _ none] = _
  rw [elements_singleton, Renderer.element, Renderer.inversePart]
  exact congrArg (Renderer.atPlace place) hblock

/-- The section that joins the list `names`, as it is written. -/
def joinText (separator : Char) : Text :=
  "\x7b\x7b#join\x7d\x7d\x7b\x7b#names\x7d\x7d\x7b\x7b.\x7d\x7d".toList ++
    separator :: "\x7b\x7b/names\x7d\x7d\x7b\x7b/join\x7d\x7d".toList

/-- The section of `joinText` joins the items of the list at the root: each of them escaped, a
separator between two of them and none at the end, and no text at all for an empty list. -/
theorem renderText_join (scope : HelperScope) {members : Members} {xs : List String}
    (hnames : members.get? "names" = some (.ofStrings xs)) {c : Char}
    (hc : c ∉ ['\x7b', '\x7d', '\\', '\n', '\r']) (strict : Bool) :
    renderText (joinText c) (.object members) scope.helpers strict =
      .ok (Text.join [c] (xs.map fun x => Text.escapeHtml x.toList)) := by
  have plain : IsPlainText [c] := by
    intro d hd
    rw [List.mem_singleton.1 hd]
    exact hc
  have hbody (place : Position) : Renderer.elements ⟨scope.helpers, strict⟩ (.ofMembers members)
      (textElements [] ++ (itemsTree "names".toList c).elements place) =
      .ok ((xs.map fun x => Text.escapeHtml x.toList).flatMap (· ++ [c])) :=
    elements_itemsTree (by rfl) (by decide) (by decide) rfl rfl hnames c place
  have hjoin : scope.helpers.get? (String.ofList "join".toList) =
      some fun text => .ok (Helper.join text) := rfl
  have hdrop : Helper.join ((xs.map fun x => Text.escapeHtml x.toList).flatMap (· ++ [c])) =
      Text.join [c] (xs.map fun x => Text.escapeHtml x.toList) := by
    cases xs with
    | nil => rfl
    | cons x xs =>
      rw [Text.flatMap_append_sep [c] (by simp), Helper.join, List.dropLast_concat]
  calc renderText (joinText c) (.object members) scope.helpers strict
      = renderText (TagTree.block "join".toList [] (itemsTree "names".toList c) [] .done).source
          (.object members) scope.helpers strict := rfl
    _ = (Except.ok (Helper.join ((xs.map fun x => Text.escapeHtml x.toList).flatMap
          (· ++ [c])))).mapError (.helper "join".toList) :=
        renderText_section ⟨by decide, by decide⟩ (by decide) hjoin isPlainText_nil
          (itemsTree_writable ⟨by decide, by decide⟩ plain) hbody
    _ = .ok (Text.join [c] (xs.map fun x => Text.escapeHtml x.toList)) := by
        rw [hdrop]
        rfl

/-- Three items, one with a mark of its own and one that ends with the separator, and none. -/
theorem renderText_join_items :
    let scope : HelperScope := ⟨.empty, .nginx⟩
    let full : Members := [("join", .string "x"), ("names", .ofStrings ["a&b", "é", "c;"])]
    let bare : Members := [("names", .ofStrings [])]
    full.get? "names" = some (.ofStrings ["a&b", "é", "c;"])
      ∧ bare.get? "names" = some (.ofStrings []) ∧ ';' ∉ ['\x7b', '\x7d', '\\', '\n', '\r']
      ∧ renderText (joinText ';') (.object full) scope.helpers true =
        .ok "a&amp;b;é;c;".toList
      ∧ renderText (joinText ';') (.object bare) scope.helpers false = .ok [] := by
  intro scope full bare
  have hfull : full.get? "names" = some (.ofStrings ["a&b", "é", "c;"]) := rfl
  have hbare : bare.get? "names" = some (.ofStrings []) := rfl
  have hc : ';' ∉ ['\x7b', '\x7d', '\\', '\n', '\r'] := by decide
  exact ⟨hfull, hbare, hc, (renderText_join scope hfull hc true).trans rfl,
    (renderText_join scope hbare hc false).trans rfl⟩

end HubRules.Template
