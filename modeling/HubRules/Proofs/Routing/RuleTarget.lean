import HubRules.Helper.Scope
import HubRules.Proofs.Routing.Evaluation

/-!
# Targets of rules

Reading the target of a rule back from its text, given the pattern. For httpd the groups of
the pattern are written `%1`, `%2`, …; `unnumber` reads them as `$1`, `$2`, … again, which
undoes `renumber` in a text that holds no such group already (`unnumber_renumber`).
`PairedRules` says that two rules of one pattern, one for each engine, have given targets.
-/

namespace HubRules

open Text

/-! ## Numbered groups -/

namespace Reference

/-- The text with httpd's groups of a condition written as groups of a pattern. It undoes
`renumber` and so reads digits of every script back, unlike `group?`, which reads the number of a
group in ASCII digits. -/
def unnumber : Text → Text
  | [] => []
  | c :: cs => (if c = '%' && cs.head?.any isDecimalDigit then '$' else c) :: unnumber cs

/-- Whether no `%` stands before a digit. -/
def isGroupFree : Text → Bool
  | [] => true
  | c :: cs => !(c == '%' && cs.head?.any isDecimalDigit) && isGroupFree cs

/-- A class of characters that does not tell the two signs apart finds the same in front. -/
theorem head?_renumber_any {p : Char → Bool} (hsigns : p '%' = p '$') (text : Text) :
    (renumber text).head?.any p = text.head?.any p := by
  cases text with
  | nil => rfl
  | cons c cs =>
    by_cases h : c = '$' ∧ cs.head?.any isDecimalDigit
    · simp [renumber, h.1, h.2, hsigns]
    · simp [renumber, h]

theorem unnumber_renumber {text : Text} (h : isGroupFree text) :
    unnumber (renumber text) = text := by
  induction text with
  | nil => rfl
  | cons c cs ih =>
    simp only [isGroupFree, Bool.and_eq_true, Bool.not_eq_true'] at h
    obtain ⟨hc, hcs⟩ := h
    have hhead : (renumber cs).head?.any isDecimalDigit = cs.head?.any isDecimalDigit :=
      head?_renumber_any (by decide) cs
    simp only [renumber, unnumber, hhead, ih hcs]
    -- only a `$` before a digit is changed, and only a `%` before one is changed back
    cases hdigit : cs.head?.any isDecimalDigit with
    | false => simp
    | true =>
      by_cases hdollar : c = '$'
      · simp [hdollar]
      · simp_all

/-- Groups are renumbered on both sides of a place that no `$` stands before. -/
theorem renumber_append {text rest : Text} (h : text.getLast? ≠ some '$') :
    renumber (text ++ rest) = renumber text ++ renumber rest := by
  induction text with
  | nil => rfl
  | cons c cs ih =>
    cases cs with
    | nil =>
      have hc : c ≠ '$' := by simpa using h
      simp [renumber, hc]
    | cons d ds =>
      have hrest : renumber (d :: ds ++ rest) = renumber (d :: ds) ++ renumber rest :=
        ih (by simpa using h)
      rw [List.cons_append, renumber, hrest]
      simp [renumber]

theorem isGroupFree_of_not_mem {text : Text} (h : '%' ∉ text) : isGroupFree text := by
  induction text with
  | nil => rfl
  | cons c cs ih =>
    obtain ⟨hc, hcs⟩ : '%' ≠ c ∧ '%' ∉ cs := by simpa using h
    simp [isGroupFree, Ne.symm hc, ih hcs]

theorem isGroupFree_append {text rest : Text} (h : text.getLast? ≠ some '%') :
    isGroupFree (text ++ rest) = (isGroupFree text && isGroupFree rest) := by
  induction text with
  | nil => rfl
  | cons c cs ih =>
    cases cs with
    | nil =>
      have hc : c ≠ '%' := by simpa using h
      simp [isGroupFree, hc]
    | cons d ds =>
      have hrest : isGroupFree (d :: ds ++ rest) = (isGroupFree (d :: ds) && isGroupFree rest) :=
        ih (by simpa using h)
      rw [List.cons_append, isGroupFree, hrest]
      simp [isGroupFree, Bool.and_assoc]

/-- A text that has no group and leaves none to what follows it. -/
def ClosesGroups (text : Text) : Prop := isGroupFree text ∧ text.getLast? ≠ some '%'

namespace ClosesGroups

theorem of_not_mem {text : Text} (h : '%' ∉ text) : ClosesGroups text :=
  ⟨isGroupFree_of_not_mem h, fun hlast => h (List.mem_of_getLast? hlast)⟩

theorem append {text rest : Text} (htext : ClosesGroups text) (hrest : ClosesGroups rest) :
    ClosesGroups (text ++ rest) := by
  refine ⟨by rw [isGroupFree_append htext.2, htext.1, hrest.1]; rfl, ?_⟩
  rw [List.getLast?_append]
  cases hlast : rest.getLast? with
  | none => simpa using htext.2
  | some c =>
    rw [← hlast]
    simpa [hlast] using hrest.2

theorem of_append {text rest : Text} (h : ClosesGroups (text ++ rest)) : ClosesGroups rest := by
  induction text with
  | nil => exact h
  | cons c cs ih =>
    apply ih
    obtain ⟨hfree, hlast⟩ := h
    rw [List.cons_append, isGroupFree, Bool.and_eq_true] at hfree
    refine ⟨hfree.2, fun heq => hlast ?_⟩
    rw [List.cons_append, List.getLast?_cons, heq]
    rfl

theorem pieces {write : Text → Text} {list : List (Piece Text)}
    (hchar : ∀ c, .char c ∈ list → c ≠ '%')
    (htoken : ∀ name, .token name ∈ list → ClosesGroups (write name)) :
    ClosesGroups (ofPieces write list) := by
  have hclosed : ∀ c, .char c ∈ list → ClosesGroups [c] := fun c hc =>
    of_not_mem (by simpa using (hchar c hc).symm)
  exact @ofPieces_related _ write (fun text _ => ClosesGroups text) write list
    (of_not_mem (by simp)) append hclosed htoken

theorem httpdVariable {name : Text} (hlower : ∀ c ∈ name, isLowerNameChar c) :
    ClosesGroups (httpdVariable name) := by
  have hname : '%' ∉ toUpper name := fun hmem =>
    absurd (isUpper_of_mem_toUpper hlower hmem) (by decide)
  have hstart : ClosesGroups "%\x7bENV:MATCH_".toList := ⟨by decide, by decide⟩
  exact append (append hstart (of_not_mem hname)) (of_not_mem (by decide))

theorem toHttpdVariables {text : Text} (h : isPlain text) : ClosesGroups (toHttpdVariables text) := by
  obtain ⟨hchars, hlower⟩ := Httpd.isPlain_iff.1 h
  refine pieces (fun c hc => ?_) fun name hname => httpdVariable (hlower name hname)
  intro heq
  subst heq
  exact absurd (hchars _ (mem_of_char_mem_scan hc)) (by decide)

theorem httpdReference {table : RoutingTable} {name : Text} (htable : table.isPlain)
    (hlower : ∀ c ∈ name, isLowerNameChar c) : ClosesGroups (httpdReference table name) := by
  unfold Reference.httpdReference
  cases hget : table.get? (String.ofList name) with
  | none => exact httpdVariable hlower
  | some mapping =>
    have hplain := Httpd.mapping_isPlain htable hget
    simp only [Mapping.isPlain, Bool.and_eq_true] at hplain
    obtain ⟨hinput, hdefault⟩ := hplain
    have hgroup : '%' ∉ table.group.name.toList := by cases table.group <;> decide
    have hentry : '%' ∉ name := fun hmem => absurd (hlower _ hmem) (by decide)
    have hdefault' : ClosesGroups
        (mapping.default?.elim [] fun d => Reference.toHttpdVariables d.toList) := by
      cases hd : mapping.default? with
      | none => exact of_not_mem (by simp)
      | some d => exact toHttpdVariables (by simpa [hd] using hdefault)
    simp only [Httpd.httpdLookup_eq, Httpd.Lookup.toText]
    exact .append (of_not_mem (by decide)) <| .append (of_not_mem hgroup) <|
      .append (of_not_mem (by decide)) <| .append (of_not_mem hentry) <|
      .append (of_not_mem (by decide)) <| .append (toHttpdVariables hinput) <|
      .append (of_not_mem (by decide)) <| .append hdefault' (of_not_mem (by decide))

theorem toHttpd {table : RoutingTable} {text : Text} (htable : table.isPlain)
    (htext : isPlain text) : ClosesGroups (toHttpd table text) := by
  obtain ⟨hchars, hlower⟩ := Httpd.isPlain_iff.1 htext
  refine pieces (fun c hc => ?_) fun name hname => httpdReference htable (hlower name hname)
  intro heq
  subst heq
  exact absurd (hchars _ (mem_of_char_mem_scan hc)) (by decide)

end ClosesGroups

end Reference

/-! ## Reading targets -/

namespace RequestRule

/-- The path to which an nginx rule of a pattern rewrites. -/
def nginxTarget? (pattern rule : Text) : Option Text := do
  let rest ← dropStart? ("rewrite ".toList ++ pattern ++ [' ']) rule
  dropEnding? " break;".toList rest

/-- The target of an httpd rule of a pattern: what stands before the last blank, behind which
are the flags. -/
def httpdTarget? (pattern rule : Text) : Option Text := do
  let rest ← dropStart?
    ("RewriteCond %\x7bREQUEST_URI\x7d ".toList ++ pattern ++ "\n    RewriteRule ^ ".toList) rule
  let (_, target) ← cut ' ' rest.reverse
  return target.reverse

theorem httpd_eq_append (pattern path : Text) (flags : List Text) :
    httpd pattern path flags
      = ("RewriteCond %\x7bREQUEST_URI\x7d ".toList ++ pattern ++ "\n    RewriteRule ^ ".toList)
        ++ (Reference.renumber path ++ (" [".toList ++ (join [','] flags ++ [']']))) := by
  unfold httpd
  simp only [List.append_assoc]

theorem nginxTarget?_nginx (pattern path : Text) :
    nginxTarget? pattern (nginx pattern (.path path)) = some path := by
  have hrule : nginx pattern (.path path)
      = ("rewrite ".toList ++ pattern ++ [' ']) ++ (path ++ " break;".toList) := by
    unfold nginx
    simp only [List.append_assoc, List.cons_append, List.nil_append]
  unfold nginxTarget?
  rw [hrule, dropStart?_append]
  exact dropEnding?_append path _

/-- The target of a rule is read back if no flag holds a blank. -/
theorem httpdTarget?_httpd {pattern path : Text} {flags : List Text}
    (h : ∀ flag ∈ flags, ' ' ∉ flag) :
    httpdTarget? pattern (httpd pattern path flags) = some (Reference.renumber path) := by
  have hflags : ' ' ∉ [']'] ++ (join [','] flags).reverse ++ ['['] := by
    simp only [List.mem_append, List.mem_reverse, List.mem_singleton, not_or]
    refine ⟨⟨by decide, fun hmem => ?_⟩, by decide⟩
    rcases mem_of_mem_join hmem with hmem | ⟨flag, hflag, hmem⟩
    · exact absurd hmem (by decide)
    · exact h flag hflag hmem
  -- read from its end, the rule has its flags up to the first blank
  have hreverse : (Reference.renumber path ++ (" [".toList ++ (join [','] flags ++ [']']))).reverse
      = ([']'] ++ (join [','] flags).reverse ++ ['['])
        ++ ' ' :: (Reference.renumber path).reverse := by
    simp
  unfold httpdTarget?
  rw [httpd_eq_append, dropStart?_append]
  simp only [Option.bind_eq_bind, Option.bind_some, hreverse, cut_eq_some_iff.2 ⟨rfl, hflags⟩,
    List.reverse_reverse, Option.pure_def]

theorem blank_not_mem_flags {tag last : Text} (htag : ' ' ∉ tag) (hlast : ' ' ∉ last) :
    ∀ flag ∈ readFlags tag ++ [last], ' ' ∉ flag := by
  intro flag hflag hmem
  rcases List.mem_append.1 hflag with hflag | hflag
  · unfold readFlags at hflag
    split at hflag
    · simp at hflag
    · have h := mem_of_mem_split hflag hmem
      exact htag (List.drop_subset 1 tag (List.dropLast_subset _ h))
  · rw [List.mem_singleton.1 hflag] at hmem
    exact hlast hmem

theorem blank_not_mem_tag {text pattern path : Text} {rest : List Text}
    (hargs : arguments 3 text = pattern :: path :: rest) : ' ' ∉ rest.headD [] := by
  cases rest with
  | nil => simp
  | cons tag more =>
    have hmem : tag ∈ arguments 3 text := by simp [hargs]
    exact not_mem_of_mem_split (List.take_subset 3 _ hmem)

end RequestRule

/-- Two rules of one pattern, one for each engine, lead to the given targets; httpd's is on a
server of its own. -/
structure PairedRules (pattern origin nginxRule httpdRule nginxTarget httpdTarget : Text) :
    Prop where
  nginx : RequestRule.nginxTarget? pattern nginxRule = some nginxTarget
  httpd : RequestRule.httpdTarget? pattern httpdRule
    = some (Reference.renumber origin ++ httpdTarget)

/-- A request with these captured parts comes to the same path by both targets. -/
def SamePath (table : RoutingTable) (captures : Captures) (nginxTarget httpdTarget : Text) : Prop :=
  Nginx.evaluate table captures nginxTarget
    = Httpd.evaluate table captures (Reference.unnumber httpdTarget)

end HubRules
