import HubRules.Placeholder
import HubRules.Proofs.Text.Tokens

/-!
# What resolving leaves behind

Placeholders are replaced in one pass over a text. What is written for one of them may
complete a part of the placeholder that stood before it, and then a placeholder is left
(`mark_isInfix_apply_iff`). Whether there are such texts depends on what stands for the
placeholder (`exists_completes`).
-/

namespace HubRules

namespace Placeholder

open Text

/-! ## Placeholders of a text -/

/-- A placeholder as it stands in a text, with the slash that goes with it. -/
def token (slash : Bool) : Text := if slash then '/' :: mark else mark

theorem token_ne_nil (slash : Bool) : token slash ≠ [] := by cases slash <;> decide

theorem mark_eq_cons : mark = '$' :: "organization".toList := by decide

theorem find?_token (slash : Bool) (rest : Text) :
    find? (token slash ++ rest) = some (slash, (token slash).length) := by
  cases slash with
  | false => simp [find?, token]
  | true =>
    have hmark : mark.isPrefixOf ('/' :: (mark ++ rest)) = false := by
      simp [mark_eq_cons, List.isPrefixOf]
    simp [find?, token, hmark]

theorem exists_of_find? {text : Text} {slash : Bool} {length : Nat}
    (h : find? text = some (slash, length)) : ∃ rest, text = token slash ++ rest := by
  unfold find? at h
  split at h
  · next hmark =>
    obtain ⟨rest, rfl⟩ := List.isPrefixOf_iff_prefix.1 hmark
    obtain ⟨rfl, -⟩ : false = slash ∧ _ := by simpa using h
    exact ⟨rest, rfl⟩
  · split at h
    · next hslash =>
      obtain ⟨rest, rfl⟩ := List.isPrefixOf_iff_prefix.1 hslash
      obtain ⟨rfl, -⟩ : true = slash ∧ _ := by simpa using h
      exact ⟨rest, rfl⟩
    · simp at h

theorem not_mark_isPrefix_of_find? {text : Text} (h : find? text = none) : ¬mark <+: text := by
  intro hpre
  unfold find? at h
  rw [if_pos (List.isPrefixOf_iff_prefix.2 hpre)] at h
  simp at h

theorem find?_within {text : Text} {slash : Bool} {length : Nat}
    (h : find? text = some (slash, length)) : 0 < length ∧ length ≤ text.length := by
  obtain ⟨rest, rfl⟩ := exists_of_find? h
  rw [find?_token] at h
  obtain rfl : (token slash).length = length := by simpa using h
  have hpos := List.length_pos_iff.2 (token_ne_nil slash)
  rw [List.length_append]
  omega

/-- Texts are read from left to right, a placeholder or a character outside placeholders at a
time. -/
@[elab_as_elim]
theorem induction_on {motive : Text → Prop} (nil : motive [])
    (char : ∀ c rest, find? (c :: rest) = none → motive rest → motive (c :: rest))
    (token : ∀ slash rest, motive rest → motive (token slash ++ rest)) (text : Text) :
    motive text := by
  induction text using token_induction find?_within with
  | nil => exact nil
  | char c rest hfind ih => exact char c rest hfind ih
  | token found rest slash _ hfind ih =>
    obtain ⟨more, heq⟩ := exists_of_find? hfind
    have hlength : found.length = (Placeholder.token slash).length := by
      rw [heq, find?_token] at hfind
      simpa using hfind.symm
    obtain ⟨rfl, rfl⟩ := List.append_inj heq hlength
    exact token slash _ ih

variable (mode : Placeholder)

@[simp] theorem apply_nil : mode.apply [] = [] := rfl

theorem apply_char {c : Char} {rest : Text} (h : find? (c :: rest) = none) :
    mode.apply (c :: rest) = c :: mode.apply rest :=
  replaceTokens_char h

theorem apply_token (slash : Bool) (rest : Text) :
    mode.apply (token slash ++ rest) = mode.write slash ++ mode.apply rest :=
  replaceTokens_token (token_ne_nil slash) (find?_token slash rest)

theorem apply_of_not_mark {text : Text} (h : ¬mark <:+: text) : mode.apply text = text := by
  induction text using induction_on with
  | nil => rfl
  | char c rest hfind ih =>
    rw [apply_char mode hfind, ih fun hin => h (List.infix_cons hin)]
  | token slash rest _ =>
    refine absurd ?_ h
    cases slash
    · exact (List.prefix_append mark rest).isInfix
    · exact List.infix_cons (List.prefix_append mark rest).isInfix

theorem length_remove_apply_le (text : Text) :
    (Placeholder.remove.apply text).length ≤ text.length := by
  induction text using induction_on with
  | nil => simp
  | char c rest hfind ih => simpa [apply_char _ hfind] using ih
  | token slash rest ih =>
    rw [apply_token, List.length_append, List.length_append]
    have : (Placeholder.remove.write slash).length = 0 := rfl
    omega

/-- Only a text without placeholders stays as it is where they are removed. -/
theorem not_mark_of_remove_apply {text : Text} (h : Placeholder.remove.apply text = text) :
    ¬mark <:+: text := by
  induction text using induction_on with
  | nil => decide
  | char c rest hfind ih =>
    rw [apply_char _ hfind, List.cons.injEq] at h
    rw [List.infix_cons_iff]
    rintro (hpre | hin)
    · exact not_mark_isPrefix_of_find? hfind hpre
    · exact ih h.2 hin
  | token slash rest _ =>
    have hlength := congrArg List.length h
    have hrest := length_remove_apply_le rest
    have hpos := List.length_pos_iff.2 (token_ne_nil slash)
    rw [apply_token, List.length_append, List.length_append] at hlength
    have : (Placeholder.remove.write slash).length = 0 := rfl
    omega

/-! ## Completed placeholders -/

/-- The text that stands for the placeholder itself, whatever is before it. -/
def replacement : Placeholder → Text
  | .organization id => id
  | .combined => combinedId.toList
  | .remove => []
  | .literal text => text

/-- Whether a part of the placeholder stands before a placeholder of the text, and what is
written for that one and after it begins with the part that is missing. -/
def Completes (text : Text) : Prop :=
  ∃ before count slash behind, 0 < count ∧ count < mark.length
    ∧ text = before ++ (mark.take count ++ (token slash ++ behind))
    ∧ mark.drop count <+: mode.write slash ++ mode.apply behind

/-- Whether what is written for a placeholder can complete one: it begins with what a part of
the placeholder misses, or is the beginning of that. -/
def MayComplete : Prop :=
  ∃ count < mark.length, 0 < count
    ∧ ∃ slash, mark.drop count <+: mode.write slash ∨ mode.write slash <+: mark.drop count

instance : Decidable mode.MayComplete :=
  inferInstanceAs (Decidable (∃ count < mark.length, 0 < count
    ∧ ∃ slash, mark.drop count <+: mode.write slash ∨ mode.write slash <+: mark.drop count))

variable {mode}

theorem dollar_not_mem_write (h : '$' ∉ mode.replacement) (slash : Bool) :
    '$' ∉ mode.write slash := by
  cases mode <;> cases slash <;> simp_all [write, replacement]

/-- A word at the head of a resolved text stands in the text, or a placeholder of the text
comes after the word's first characters. -/
theorem isPrefix_apply_cases {word text : Text} (h : word <+: mode.apply text) :
    word <+: text ∨ ∃ count slash behind, count < word.length
      ∧ text = word.take count ++ (token slash ++ behind)
      ∧ word.drop count <+: mode.write slash ++ mode.apply behind := by
  induction word generalizing text with
  | nil => exact .inl (List.nil_prefix)
  | cons w ws ih =>
    induction text using induction_on with
    | nil => simp at h
    | token slash behind _ =>
      exact .inr ⟨0, slash, behind, Nat.succ_pos _, rfl, by rwa [apply_token] at h⟩
    | char c rest hfind _ =>
      rw [apply_char _ hfind, List.cons_prefix_cons] at h
      obtain ⟨rfl, h⟩ := h
      rcases ih h with hpre | ⟨count, slash, behind, hlt, rfl, hmissing⟩
      · exact .inl (List.cons_prefix_cons.2 ⟨rfl, hpre⟩)
      · exact .inr ⟨count + 1, slash, behind, Nat.succ_lt_succ hlt, rfl, hmissing⟩

/-- A placeholder that begins with a character of a text without `$` begins behind it. -/
theorem mark_isInfix_append {head rest : Text} (hhead : '$' ∉ head)
    (h : mark <:+: head ++ rest) : mark <:+: rest := by
  induction head with
  | nil => exact h
  | cons c cs ih =>
    obtain ⟨hc, hcs⟩ : '$' ≠ c ∧ '$' ∉ cs := by simpa using hhead
    rw [List.cons_append, List.infix_cons_iff] at h
    rcases h with hpre | hin
    · exact absurd (List.cons_prefix_cons.1 hpre).1 hc
    · exact ih hcs hin

theorem completes_of_mark (hplain : '$' ∉ mode.replacement) {text : Text}
    (h : mark <:+: mode.apply text) : mode.Completes text := by
  induction text using induction_on with
  | nil => exact absurd h (by rw [apply_nil]; decide)
  | token slash rest ih =>
    rw [apply_token] at h
    obtain ⟨before, count, other, behind, hpos, hlt, rfl, hmissing⟩ :=
      ih (mark_isInfix_append (dollar_not_mem_write hplain slash) h)
    exact ⟨token slash ++ before, count, other, behind, hpos, hlt,
      by rw [List.append_assoc], hmissing⟩
  | char c rest hfind ih =>
    rw [apply_char _ hfind, List.infix_cons_iff] at h
    rcases h with hpre | hin
    · -- the placeholder begins here, but does not stand here in the text
      rw [← apply_char _ hfind] at hpre
      rcases isPrefix_apply_cases hpre with hin | ⟨count, slash, behind, hlt, htext, hmissing⟩
      · exact absurd hin (not_mark_isPrefix_of_find? hfind)
      · refine ⟨[], count, slash, behind, Nat.pos_of_ne_zero ?_, hlt, htext, hmissing⟩
        rintro rfl
        rw [htext, List.take_zero, List.nil_append, find?_token] at hfind
        simp at hfind
    · obtain ⟨before, count, slash, behind, hpos, hlt, rfl, hmissing⟩ := ih hin
      exact ⟨c :: before, count, slash, behind, hpos, hlt, rfl, hmissing⟩

/-- What follows a text does not lengthen a word at its head, if it begins with a character
that the word has only at its start. -/
theorem isPrefix_append_iff {word part rest : Text} {c : Char} (hpart : part ≠ [])
    (hc : c ∉ word.tail) : word <+: part ++ c :: rest ↔ word <+: part := by
  constructor
  · intro h
    rcases List.prefix_or_prefix_of_prefix h (List.prefix_append part (c :: rest)) with hpre | hpre
    · exact hpre
    · obtain ⟨more, rfl⟩ := hpre
      rw [List.prefix_append_right_inj] at h
      cases more with
      | nil => exact ⟨[], by simp⟩
      | cons d ds =>
        obtain ⟨rfl, -⟩ := List.cons_prefix_cons.1 h
        rw [List.tail_append_of_ne_nil hpart] at hc
        exact absurd (List.mem_append_right _ List.mem_cons_self) hc
  · exact fun h => h.trans (List.prefix_append part (c :: rest))

theorem find?_append {part rest : Text} (hpart : part ≠ []) (hrest : ¬mark <+: '$' :: rest) :
    find? (part ++ '$' :: rest) = find? part := by
  have hmark : ∀ {first : Text}, first ≠ [] →
      mark.isPrefixOf (first ++ '$' :: rest) = mark.isPrefixOf first := by
    intro first hfirst
    rw [Bool.eq_iff_iff, List.isPrefixOf_iff_prefix, List.isPrefixOf_iff_prefix]
    exact isPrefix_append_iff hfirst (by decide)
  have hslash : ('/' :: mark).isPrefixOf (part ++ '$' :: rest) = ('/' :: mark).isPrefixOf part := by
    cases part with
    | nil => exact absurd rfl hpart
    | cons c cs =>
      rw [List.cons_append, List.isPrefixOf, List.isPrefixOf]
      by_cases hcs : cs = []
      · -- the slash ends the part, and no placeholder follows it
        subst hcs
        have hnil : mark.isPrefixOf [] = false := rfl
        have hnot : mark.isPrefixOf ('$' :: rest) = false := by
          rwa [← Bool.not_eq_true, List.isPrefixOf_iff_prefix]
        rw [List.nil_append, hnil, hnot]
      · rw [hmark hcs]
  unfold find?
  rw [hmark hpart, hslash]

/-- Texts are resolved apart where the second one begins with `$` but no placeholder. -/
theorem apply_append {before rest : Text} (hrest : ¬mark <+: '$' :: rest) :
    mode.apply (before ++ '$' :: rest) = mode.apply before ++ mode.apply ('$' :: rest) := by
  unfold apply replaceTokens
  rw [scan_append find?_within fun part hpart => find?_append hpart hrest, ofPieces_append]

/-- A text without `$` stays as it is, whatever follows, except for a slash at its end. -/
theorem apply_plain_append {start : Text} (hdollar : '$' ∉ start)
    (hslash : start.getLast? ≠ some '/') (rest : Text) :
    mode.apply (start ++ rest) = start ++ mode.apply rest := by
  refine replaceTokens_run fun c behind hsuffix => ?_
  obtain ⟨before, rfl⟩ := hsuffix
  have hc : '$' ≠ c := by rintro rfl; simp at hdollar
  cases behind with
  | nil =>
    have hlast : '/' ≠ c := by rintro rfl; simp at hslash
    simp [find?, mark_eq_cons, List.isPrefixOf, hc, hlast]
  | cons d ds =>
    -- behind a slash stands another character of the text, which is no `$`
    have hd : '$' ≠ d := by rintro rfl; simp at hdollar
    simp [find?, mark_eq_cons, List.isPrefixOf, hc, hd]

theorem apply_letters {letters : Text} (hdollar : '$' ∉ letters) (hslash : '/' ∉ letters)
    (rest : Text) : mode.apply (letters ++ rest) = letters ++ mode.apply rest :=
  apply_plain_append hdollar (fun hlast => hslash (List.mem_of_getLast? hlast)) rest

theorem take_mark : ∀ count < mark.length, 0 < count →
    mark.take count = '$' :: mark.tail.take (count - 1) ∧ '$' ∉ mark.tail.take (count - 1)
      ∧ '/' ∉ mark.tail.take (count - 1) := by
  decide

theorem drop_mark : ∀ count < mark.length, 0 < count →
    mark.drop count ≠ [] ∧ '$' ∉ mark.drop count ∧ '/' ∉ mark.drop count := by
  decide

theorem not_mark_isPrefix {count : Nat} (hpos : 0 < count) (hlt : count < mark.length)
    (slash : Bool) (behind : Text) : ¬mark <+: mark.take count ++ (token slash ++ behind) := by
  intro h
  obtain ⟨hne, hdollar, hslash⟩ := drop_mark count hlt hpos
  have hmissing : mark.drop count <+: token slash ++ behind := by
    rw [← List.prefix_append_right_inj (mark.take count), List.take_append_drop]
    exact h
  obtain ⟨c, cs, hdrop⟩ := List.exists_cons_of_ne_nil hne
  rw [hdrop] at hmissing hdollar hslash
  cases slash with
  | false =>
    rw [show token false = '$' :: "organization".toList from mark_eq_cons] at hmissing
    obtain ⟨rfl, -⟩ := List.cons_prefix_cons.1 hmissing
    exact hdollar List.mem_cons_self
  | true =>
    obtain ⟨rfl, -⟩ := List.cons_prefix_cons.1 hmissing
    exact hslash List.mem_cons_self

theorem mark_of_completes {text : Text} (h : mode.Completes text) : mark <:+: mode.apply text := by
  obtain ⟨before, count, slash, behind, hpos, hlt, rfl, hmissing⟩ := h
  obtain ⟨htake, hdollar, hslash⟩ := take_mark count hlt hpos
  have hnot := not_mark_isPrefix hpos hlt slash behind
  rw [htake, List.cons_append] at hnot ⊢
  have hfind : find? ('$' :: (mark.tail.take (count - 1) ++ (token slash ++ behind))) = none := by
    have hpre : mark.isPrefixOf ('$' :: (mark.tail.take (count - 1) ++ (token slash ++ behind)))
        = false := by
      rwa [← Bool.not_eq_true, List.isPrefixOf_iff_prefix]
    simp [find?, hpre, List.isPrefixOf]
  rw [apply_append hnot, apply_char _ hfind, apply_letters hdollar hslash, apply_token,
    ← List.cons_append, ← htake]
  refine List.IsInfix.trans ?_ (List.suffix_append _ _).isInfix
  refine List.IsPrefix.isInfix ?_
  have hmark : mark.take count ++ mark.drop count
      <+: mark.take count ++ (mode.write slash ++ mode.apply behind) :=
    (List.prefix_append_right_inj _).2 hmissing
  rwa [List.take_append_drop] at hmark

theorem mark_isInfix_apply_iff (hplain : '$' ∉ mode.replacement) {text : Text} :
    mark <:+: mode.apply text ↔ mode.Completes text :=
  ⟨completes_of_mark hplain, mark_of_completes⟩

/-! ## What can complete a placeholder -/

theorem mayComplete_of_completes {text : Text} (h : mode.Completes text) : mode.MayComplete := by
  obtain ⟨before, count, slash, behind, hpos, hlt, -, hmissing⟩ := h
  exact ⟨count, hlt, hpos, slash,
    List.prefix_or_prefix_of_prefix hmissing (List.prefix_append _ _)⟩

/-- If what is written can complete a placeholder, then it does so in some text. -/
theorem exists_completes (h : mode.MayComplete) : ∃ text, mode.Completes text := by
  obtain ⟨count, hlt, hpos, slash, hwrite⟩ := h
  rcases hwrite with hpre | ⟨more, hmore⟩
  · exact ⟨_, [], count, slash, [], hpos, hlt, rfl, by simpa using hpre⟩
  · -- the rest of what is missing stands behind the placeholder
    obtain ⟨-, hdollar, hslash⟩ := drop_mark count hlt hpos
    have hkept : mode.apply more = more := by
      rw [← hmore] at hdollar hslash
      have hletters : mode.apply (more ++ []) = more ++ mode.apply [] :=
        apply_letters (fun hmem => hdollar (List.mem_append_right _ hmem))
          (fun hmem => hslash (List.mem_append_right _ hmem)) []
      simpa using hletters
    refine ⟨_, [], count, slash, more, hpos, hlt, rfl, ?_⟩
    exact ⟨[], by rw [List.append_nil, hkept, hmore]⟩

/-- Removing a placeholder may leave one; the shared target never does. -/
example : Placeholder.remove.MayComplete ∧ ¬Placeholder.combined.MayComplete := by decide

end Placeholder

end HubRules
