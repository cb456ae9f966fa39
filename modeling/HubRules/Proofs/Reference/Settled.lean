import Mathlib.Data.List.Chain
import HubRules.Proofs.LookupMap.Lookups
import HubRules.Proofs.Routing.ArtifactPath

/-!
# Texts without references

A text is settled if no `$` of it stands before a character of a name. Such a text is left as it is
(`replaceNamed_of_isSettled`). What is written for httpd is settled, whatever the inputs and
defaults of the table hold (`isSettled_toHttpd`): no reference is left, and none forms where two
pieces meet. So writing it again changes nothing (`references_settled`).
-/

namespace HubRules

namespace Reference

open Text

variable {write : Text → Text} {text rest : Text}

/-! ## Settled texts -/

/-- Whether no `$` of a text stands before a character of a name. -/
def IsSettled (text : Text) : Prop := text.IsChain fun c d => c = '$' → isNameChar d = false

theorem isSettled_iff : IsSettled text ↔ ∀ c, isNameChar c → ¬['$', c] <:+: text := by
  unfold IsSettled
  constructor
  · intro h c hc hin
    have hpair := List.IsChain.infix h hin
    have hclass : isNameChar c = false := List.isChain_pair.1 hpair rfl
    rw [hc] at hclass
    cases hclass
  · rw [List.isChain_iff_forall_rel_of_append_cons_cons]
    rintro h c d before behind rfl rfl
    rw [← Bool.not_eq_true]
    exact fun hd => h d hd ⟨before, behind, by simp⟩

theorem IsSettled.of_not_mem (h : '$' ∉ text) : IsSettled text := by
  rw [isSettled_iff]
  rintro c - ⟨before, behind, rfl⟩
  simp at h

/-- Two texts may stand beside each other if the first one does not end with `$`. -/
theorem IsSettled.append_of_last (htext : IsSettled text) (hrest : IsSettled rest)
    (hlast : text.getLast? ≠ some '$') : IsSettled (text ++ rest) := by
  refine List.IsChain.append htext hrest ?_
  rintro c hc _ _ rfl
  exact absurd (Option.mem_def.1 hc) hlast

theorem IsSettled.append_sign {sign : Char} (htext : IsSettled text) (hrest : IsSettled rest)
    (hsign : sign ≠ '$' ∧ isNameChar sign = false) : IsSettled (text ++ sign :: rest) := by
  have hbehind : IsSettled (sign :: rest) :=
    List.isChain_cons.2 ⟨fun _ _ heq => absurd heq hsign.1, hrest⟩
  refine List.IsChain.append htext hbehind ?_
  intro _ _ c hc _
  obtain rfl : sign = c := Option.some.inj hc
  exact hsign.2

theorem named?_of_isSettled {c : Char} (h : IsSettled (c :: text)) : named? (c :: text) = none := by
  by_cases hc : c = '$'
  · subst hc
    exact named?_dollar_eq_none_iff.2 fun d hd => (List.isChain_cons.1 h).1 d hd rfl
  · exact named?_of_ne hc

theorem replaceNamed_of_isSettled (h : IsSettled text) :
    replaceTokens named? write text = text := by
  induction text with
  | nil => rfl
  | cons c cs ih =>
    rw [replaceTokens_char (named?_of_isSettled h), ih (List.IsChain.tail h)]

/-! ## Settling references -/

/-- What may be written for a reference so that none is left: it holds no other one, and it
neither goes on with a name nor ends with `$`. -/
structure Settles (written : Text) : Prop where
  isSettled : IsSettled written
  first : ∃ c more, written = c :: more ∧ isNameChar c = false
  last : written.getLast? ≠ some '$'

/-- No reference is left where each of them is settled, nor does one form where what is written
meets the text around it. -/
theorem isSettled_replaceNamed
    (hwrite : ∀ {part name length}, named? part = some (name, length) → Settles (write name))
    (text : Text) : IsSettled (replaceTokens named? write text) := by
  induction text using token_induction named?_within with
  | nil => exact List.isChain_nil
  | token token rest name hne hname ih =>
    rw [replaceTokens_token hne hname]
    exact (hwrite hname).isSettled.append_of_last ih (hwrite hname).last
  | char c rest hnone ih =>
    rw [replaceTokens_char hnone]
    refine List.isChain_cons.2 ⟨?_, ih⟩
    rintro d hd rfl
    -- the next character is that of the text, or begins what is written for a reference
    have hnonempty : ∀ {part name length}, named? part = some (name, length) → write name ≠ [] := by
      intro part name length hname
      obtain ⟨first, more, hfirst, -⟩ := (hwrite hname).first
      rw [hfirst]
      exact List.cons_ne_nil first more
    rcases head?_replaceTokens named?_within hnonempty rest with hrest | ⟨_, name, _, hname, hrest⟩
    · rw [hrest] at hd
      exact named?_dollar_eq_none_iff.1 hnone d hd
    · obtain ⟨first, more, hfirst, hclass⟩ := (hwrite hname).first
      rw [hrest, hfirst] at hd
      obtain rfl : first = d := Option.some.inj hd
      exact hclass

/-! ## What is written for httpd -/

theorem settles_httpdVariable {name : Text} (hname : ∀ c ∈ name, isNameChar c) :
    Settles (httpdVariable name) :=
  ⟨.of_not_mem (dollar_not_mem_httpdVariable hname), ⟨'%', _, rfl, by decide⟩,
    (isSealed_httpdVariable name).2⟩

theorem isSettled_toHttpdVariables (text : Text) : IsSettled (toHttpdVariables text) :=
  isSettled_replaceNamed (fun hname => settles_httpdVariable (isNameChar_of_named? hname).2) text

theorem isSettled_httpdLookup {table : RoutingTable} {name : Text} (mapping : Mapping)
    (hname : ∀ c ∈ name, isNameChar c) : IsSettled (httpdLookup table name mapping) := by
  have hinput := isSettled_toHttpdVariables mapping.input.toList
  have hdefault : IsSettled (mapping.default?.elim [] fun d => toHttpdVariables d.toList) := by
    cases mapping.default? with
    | none => exact List.isChain_nil
    | some d => exact isSettled_toHttpdVariables d.toList
  have hstart : IsSettled ("$\x7b".toList ++ (table.mapName (String.ofList name)).toList) :=
    .append_of_last (by unfold IsSettled; decide) (.of_not_mem (dollar_not_mem_mapName hname))
      (by decide)
  -- what the input or the default leaves open, the sign behind it closes
  unfold httpdLookup
  exact ((hstart.append_sign hinput (by decide)).append_sign hdefault (by decide)).append_sign
    List.isChain_nil (by decide)

theorem settles_httpdReference (table : RoutingTable) {name : Text}
    (hname : ∀ c ∈ name, isNameChar c) : Settles (httpdReference table name) := by
  refine ⟨?_, ?_, (isSealed_httpdReference table name).2⟩
  · unfold httpdReference
    cases table.get? (String.ofList name) with
    | some mapping => exact isSettled_httpdLookup mapping hname
    | none => exact (settles_httpdVariable hname).isSettled
  · obtain ⟨c, more, hwritten, hc⟩ := httpdReference_eq_cons table name
    exact ⟨c, more, hwritten, by rcases hc with rfl | rfl <;> decide⟩

theorem isSettled_toHttpd (table : RoutingTable) (text : Text) : IsSettled (toHttpd table text) :=
  isSettled_replaceNamed
    (fun hname => settles_httpdReference table (isNameChar_of_named? hname).2) text

end Reference

open Reference

/-- No reference is left in a text that was written for httpd, whatever the inputs and defaults of
the table are: no `$` stands before a letter or an underscore as names have them. So the text was
left as it is exactly if it referred to nothing, and it is left as it is from then on, for every
group with a table. -/
theorem references_settled {config : Configuration} {group : RoutingGroup} {text written : Text}
    (h : (HelperScope.mk config .httpd).references group text = .ok written) :
    (∀ c, isNameChar c → ¬['$', c] <:+: written)
      ∧ (written = text ↔ ∀ c, isNameChar c → ¬['$', c] <:+: text)
      ∧ ∀ (other : Configuration) again table, other.routingTable again = .ok table →
        (HelperScope.mk other .httpd).references again written = .ok written := by
  obtain ⟨table, hwritten⟩ : ∃ table, toHttpd table text = written := by
    unfold HelperScope.references Reference.write at h
    cases htable : config.routingTable group with
    | error cause =>
      rw [htable] at h
      cases h
    | ok table => exact ⟨table, Except.ok.inj ((references_httpd htable).symm.trans h)⟩
  have hsettled : IsSettled written := hwritten ▸ isSettled_toHttpd table text
  refine ⟨isSettled_iff.1 hsettled, ⟨fun heq => ?_, fun hfree => ?_⟩,
    fun other again _ hother => ?_⟩
  · rw [← heq]
    exact isSettled_iff.1 hsettled
  · rw [← hwritten, toHttpd, replaceNamed_of_isSettled (isSettled_iff.2 hfree)]
  · rw [references_httpd hother, toHttpd, replaceNamed_of_isSettled hsettled]

/-- An entry whose input and default refer to names and end with `$`. -/
def openConfiguration : Configuration := ⟨[("hub_mapping", .object [("hub", .object [
  ("branch", .object [("input", .string "$organization$"), ("default", .string "$hub$")])])])]⟩

def openWritten : Text :=
  "$\x7bhub_branch:%\x7bENV:MATCH_ORGANIZATION\x7d$|%\x7bENV:MATCH_HUB\x7d$\x7d$".toList
    ++ "%\x7bENV:MATCH_X\x7d".toList

theorem references_settled_open :
    (HelperScope.mk openConfiguration .httpd).references .hub "$branch$$x".toList = .ok openWritten
      ∧ (HelperScope.mk openConfiguration .httpd).references .prediction openWritten
        = .ok openWritten := by
  have h : (HelperScope.mk openConfiguration .httpd).references .hub "$branch$$x".toList
      = .ok openWritten := by rfl
  exact ⟨h, (references_settled h).2.2 openConfiguration .prediction _ rfl⟩

end HubRules
