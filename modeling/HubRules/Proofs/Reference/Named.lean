import HubRules.Reference
import HubRules.Url.Host
import HubRules.Proofs.Text.Tokens

/-!
# Named references

How the named references of a text are found. A reference ends where no character of a name
follows, so that a text may be cut there (`replaceNamed_append`); a text without `$` has no
references (`replaceNamed_literal`). Names in lower case survive the way through httpd's
variables, which are in upper case (`lowerAscii_toUpper`).
-/

namespace HubRules

namespace Reference

open Text

/-! ## Finding references -/

theorem named?_eq_some_iff {text name : Text} {length : Nat} :
    named? text = some (name, length) ↔
      ∃ rest, text = '$' :: rest ∧ name = rest.takeWhile isNameChar ∧ name ≠ []
        ∧ length = name.length + 1 := by
  unfold named?
  split
  · next rest =>
    by_cases h : (rest.takeWhile isNameChar).isEmpty
    · simp only [h, if_true, reduceCtorEq, false_iff]
      rintro ⟨_, hrest, rfl, hne, -⟩
      obtain rfl : rest = _ := by simpa using hrest
      exact hne (List.isEmpty_iff.1 h)
    · rw [if_neg h, Option.some.injEq, Prod.mk.injEq]
      constructor
      · rintro ⟨rfl, rfl⟩
        exact ⟨rest, rfl, rfl, fun hnil => h (List.isEmpty_iff.2 hnil), rfl⟩
      · rintro ⟨_, hrest, rfl, -, rfl⟩
        obtain rfl : rest = _ := by simpa using hrest
        exact ⟨rfl, rfl⟩
  · next hdollar =>
    simp only [reduceCtorEq, false_iff]
    rintro ⟨rest, rfl, -⟩
    exact hdollar rest rfl

theorem named?_of_ne {c : Char} {rest : Text} (h : c ≠ '$') : named? (c :: rest) = none := by
  unfold named?
  split
  · next heq => exact absurd (List.cons.inj heq).1 h
  · rfl

/-- A `$` is no reference if no name goes on behind it. -/
theorem named?_dollar_eq_none_iff {text : Text} :
    named? ('$' :: text) = none ↔ ∀ c ∈ text.head?, isNameChar c = false := by
  cases text with
  | nil => simp [named?]
  | cons c cs => cases hc : isNameChar c <;> simp [named?, hc]

theorem named?_within {text name : Text} {length : Nat} (h : named? text = some (name, length)) :
    0 < length ∧ length ≤ text.length := by
  obtain ⟨rest, rfl, rfl, -, rfl⟩ := named?_eq_some_iff.1 h
  have : (rest.takeWhile isNameChar).length ≤ rest.length :=
    (List.takeWhile_prefix isNameChar).length_le
  simp [this]

/-- What follows a text does not change its references, if it does not go on with a name. -/
theorem named?_append {text rest : Text} (hne : text ≠ [])
    (hrest : ∀ c ∈ rest.head?, isNameChar c = false) : named? (text ++ rest) = named? text := by
  cases text with
  | nil => exact absurd rfl hne
  | cons c cs =>
    by_cases hc : c = '$'
    · subst hc
      have hsame : (cs ++ rest).takeWhile isNameChar = cs.takeWhile isNameChar := by
        rw [List.takeWhile_append]
        split
        -- a name that fills the text ends there, since the rest begins with no name character
        · next hall =>
          have hcs : cs.takeWhile isNameChar = cs :=
            (List.takeWhile_prefix isNameChar).eq_of_length hall
          cases rest with
          | nil => simp [hcs]
          | cons d ds => simp [hcs, hrest d rfl]
        · rfl
      simp only [List.cons_append, named?, hsame]
    · rw [List.cons_append, named?_of_ne hc, named?_of_ne hc]

theorem isNameChar_of_named? {text name : Text} {length : Nat}
    (h : named? text = some (name, length)) : name ≠ [] ∧ ∀ c ∈ name, isNameChar c := by
  obtain ⟨rest, -, rfl, hne, -⟩ := named?_eq_some_iff.1 h
  exact ⟨hne, List.all_eq_true.1 List.all_takeWhile⟩

theorem isNameChar_of_token_mem {text name : Text} (h : .token name ∈ scan named? text) :
    name ≠ [] ∧ ∀ c ∈ name, isNameChar c := by
  obtain ⟨part, length, hpart⟩ := exists_of_token_mem_scan 0 h
  exact isNameChar_of_named? hpart

theorem ofPieces_scan_named (text : Text) : ofPieces ('$' :: ·) (scan named? text) = text := by
  refine replaceTokens_eq_self ?_ text
  intro part name length h
  obtain ⟨rest, rfl, rfl, -, rfl⟩ := named?_eq_some_iff.1 h
  refine ⟨Nat.succ_pos _, ?_⟩
  rw [List.take_succ_cons, List.prefix_iff_eq_take.1 (List.takeWhile_prefix isNameChar)]
  simp

theorem mem_of_char_mem_scan {text : Text} {c : Char} (h : .char c ∈ scan named? text) :
    c ∈ text := by
  rw [← ofPieces_scan_named text]
  exact mem_ofPieces.2 (.inl h)

/-! ## Replacing references -/

section Replacing

variable {write : Text → Text}

theorem scan_named_append {text rest : Text} (hrest : ∀ c ∈ rest.head?, isNameChar c = false) :
    scan named? (text ++ rest) = scan named? text ++ scan named? rest :=
  scan_append named?_within fun _ hne => named?_append hne hrest

/-- References are replaced on both sides of a character that no name holds. -/
theorem replaceNamed_append {text rest : Text}
    (hrest : ∀ c ∈ rest.head?, isNameChar c = false) :
    replaceTokens named? write (text ++ rest)
      = replaceTokens named? write text ++ replaceTokens named? write rest := by
  rw [replaceTokens, scan_named_append hrest, ofPieces_append]
  rfl

theorem replaceNamed_cons {c : Char} {rest : Text} (h : c ≠ '$') :
    replaceTokens named? write (c :: rest) = c :: replaceTokens named? write rest :=
  replaceTokens_char (named?_of_ne h)

theorem replaceNamed_literal {literal rest : Text} (h : '$' ∉ literal) :
    replaceTokens named? write (literal ++ rest) = literal ++ replaceTokens named? write rest := by
  refine replaceTokens_run fun c behind hsuffix => named?_of_ne fun hc => ?_
  subst hc
  exact h (hsuffix.mem List.mem_cons_self)

theorem replaceNamed_of_not_mem {text : Text} (h : '$' ∉ text) :
    replaceTokens named? write text = text := by
  simpa using @replaceNamed_literal write text [] h

end Replacing

/-! ## Names in lower case -/

def isLowerNameChar (c : Char) : Bool := c == '_' || c.isLower

theorem isNameChar_of_isLower {c : Char} (h : isLowerNameChar c) : isNameChar c := by
  unfold isLowerNameChar at h
  unfold isNameChar Char.isAlpha
  grind

def lowerNameChars : Text := "_abcdefghijklmnopqrstuvwxyz".toList

theorem mem_lowerNameChars {c : Char} (h : isLowerNameChar c) : c ∈ lowerNameChars := by
  rcases Bool.or_eq_true _ _ |>.mp h with h | h
  · rw [beq_iff_eq.1 h]
    decide
  · have hn : 97 ≤ c.toNat ∧ c.toNat ≤ 122 := by
      have hletter : (decide (c.val ≥ 'a'.val) && decide (c.val ≤ 'z'.val)) = true := h
      simpa [UInt32.le_iff_toNat_le, ← Char.toNat_val] using hletter
    have hall : ∀ n < 123, 97 ≤ n → Char.ofNat n ∈ lowerNameChars := by decide
    rw [← Char.ofNat_toNat c]
    exact hall c.toNat (by omega) hn.1

theorem upperChar_of_isLowerNameChar {c : Char} (h : isLowerNameChar c) :
    upperChar c = [c.toUpper] ∧ c.toUpper.toLower = c
      ∧ (c.toUpper == '_' || c.toUpper.isUpper) = true := by
  have hall : ∀ d ∈ lowerNameChars, upperChar d = [d.toUpper] ∧ d.toUpper.toLower = d
      ∧ (d.toUpper == '_' || d.toUpper.isUpper) = true := by decide +kernel
  exact hall c (mem_lowerNameChars h)

theorem toUpper_eq_map {name : Text} (h : ∀ c ∈ name, isLowerNameChar c) :
    toUpper name = name.map Char.toUpper := by
  induction name with
  | nil => rfl
  | cons c cs ih =>
    have hc := (upperChar_of_isLowerNameChar (h c List.mem_cons_self)).1
    have hcs := ih fun d hd => h d (List.mem_cons_of_mem c hd)
    unfold toUpper at hcs ⊢
    rw [List.flatMap_cons, hc, hcs]
    rfl

theorem lowerAscii_toUpper {name : Text} (h : ∀ c ∈ name, isLowerNameChar c) :
    lowerAscii (toUpper name) = name := by
  rw [toUpper_eq_map h, lowerAscii, List.map_map]
  refine (List.map_congr_left fun c hc => ?_).trans (List.map_id name)
  exact (upperChar_of_isLowerNameChar (h c hc)).2.1

theorem isUpper_of_mem_toUpper {name : Text} (h : ∀ c ∈ name, isLowerNameChar c) {c : Char}
    (hc : c ∈ toUpper name) : (c == '_' || c.isUpper) = true := by
  rw [toUpper_eq_map h, List.mem_map] at hc
  obtain ⟨d, hd, rfl⟩ := hc
  exact (upperChar_of_isLowerNameChar (h d hd)).2.2

end Reference

end HubRules
