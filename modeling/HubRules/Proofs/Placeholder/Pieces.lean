import HubRules.Proofs.Placeholder.Resolved
import Mathlib.Data.List.Forall2

/-!
# Placeholders between pieces

The placeholders of a text stand between its pieces, which are the only texts without a
placeholder that it is the join of (`pieces_eq_iff`). Replacing the placeholders from left to
right joins the pieces with what stands for a placeholder, where a piece may lose the slash at
its end (`apply_eq_joined`). In a configuration this happens to the texts of URLs and to
nothing else (`resolveUrls_forall₂`).
-/

namespace HubRules

namespace Placeholder

open Text

/-! ## Pieces -/

/-- A placeholder without its slash at the head of a text. -/
def mark? (text : Text) : Option (Unit × Nat) :=
  if mark.isPrefixOf text then some ((), mark.length) else none

/-- The texts between the tokens of a scanned text. -/
def between : List (Piece Unit) → List Text
  | [] => [[]]
  | .char c :: rest => (between rest).modifyHead (c :: ·)
  | .token () :: rest => [] :: between rest

/-- The pieces of a text between its placeholders; there is always at least one. -/
def pieces (text : Text) : List Text := between (scan mark? text)

theorem mark?_within {text : Text} {value : Unit} {length : Nat}
    (h : mark? text = some (value, length)) : 0 < length ∧ length ≤ text.length := by
  unfold mark? at h
  split at h
  · next hpre =>
    obtain rfl : mark.length = length := by simpa using h
    exact ⟨by decide, (List.isPrefixOf_iff_prefix.1 hpre).length_le⟩
  · simp at h

theorem mark?_mark (rest : Text) : mark? (mark ++ rest) = some ((), mark.length) := by
  simp [mark?]

@[simp] theorem pieces_nil : pieces [] = [[]] := rfl

theorem pieces_char {c : Char} {rest : Text} (h : ¬mark <+: c :: rest) :
    pieces (c :: rest) = (pieces rest).modifyHead (c :: ·) := by
  have hnone : mark? (c :: rest) = none := by simp [mark?, h]
  rw [pieces, scan_char hnone]
  rfl

@[simp] theorem pieces_mark (rest : Text) : pieces (mark ++ rest) = [] :: pieces rest := by
  rw [pieces, scan_token (by decide) (mark?_mark rest)]
  rfl

/-- Texts are read from left to right, a placeholder without its slash or a character at which
none begins at a time. -/
@[elab_as_elim]
theorem mark_induction {motive : Text → Prop} (nil : motive [])
    (char : ∀ c rest, ¬mark <+: c :: rest → motive rest → motive (c :: rest))
    (mark : ∀ rest, motive rest → motive (mark ++ rest)) (text : Text) : motive text := by
  induction text using token_induction mark?_within with
  | nil => exact nil
  | char c rest hnone ih =>
    refine char c rest (fun hpre => ?_) ih
    simp [mark?, hpre] at hnone
  | token found rest value _ hfound ih =>
    unfold mark? at hfound
    split at hfound
    · next hpre =>
      have hlength : Placeholder.mark.length = found.length := by simpa using hfound
      obtain rfl : Placeholder.mark = found :=
        List.IsPrefix.eq_of_length
          (List.prefix_of_prefix_length_le (List.isPrefixOf_iff_prefix.1 hpre)
            (List.prefix_append found rest) (Nat.le_of_eq hlength)) hlength
      exact mark rest ih
    · simp at hfound

theorem pieces_ne_nil (text : Text) : pieces text ≠ [] := by
  induction text using mark_induction with
  | nil => simp
  | char c rest hnot ih => simpa [pieces_char hnot] using ih
  | mark rest _ => simp

theorem exists_pieces_eq (text : Text) : ∃ part parts, pieces text = part :: parts :=
  List.exists_cons_of_ne_nil (pieces_ne_nil text)

theorem join_pieces (text : Text) : join mark (pieces text) = text := by
  induction text using mark_induction with
  | nil => rfl
  | char c rest hnot ih =>
    obtain ⟨part, parts, hparts⟩ := exists_pieces_eq rest
    rw [hparts] at ih
    rw [pieces_char hnot, hparts, List.modifyHead_cons, join_cons_cons, ih]
  | mark rest ih =>
    obtain ⟨part, parts, hparts⟩ := exists_pieces_eq rest
    rw [hparts] at ih
    rw [pieces_mark, hparts, join, ih, List.nil_append]
    simp

theorem not_mark_of_mem_pieces {text part : Text} (h : part ∈ pieces text) : ¬mark <:+: part := by
  induction text using mark_induction generalizing part with
  | nil =>
    obtain rfl : part = [] := by simpa using h
    decide
  | char c rest hnot ih =>
    obtain ⟨first, parts, hparts⟩ := exists_pieces_eq rest
    rw [pieces_char hnot, hparts, List.modifyHead_cons, List.mem_cons] at h
    rcases h with rfl | h
    · -- a placeholder at the head of the first piece would be at the head of the text
      have hpre : first <+: rest := by
        have hjoin := prefix_join mark first parts
        rwa [← hparts, join_pieces] at hjoin
      rw [List.infix_cons_iff]
      rintro (hmark | hin)
      · exact hnot (hmark.trans (List.cons_prefix_cons.2 ⟨rfl, hpre⟩))
      · exact ih (hparts ▸ List.mem_cons_self) hin
    · exact ih (hparts ▸ List.mem_cons_of_mem first h)
  | mark rest ih =>
    rw [pieces_mark, List.mem_cons] at h
    rcases h with rfl | h
    · decide
    · exact ih h

theorem pieces_of_not_mark {text : Text} (h : ¬mark <:+: text) : pieces text = [text] := by
  induction text with
  | nil => rfl
  | cons c rest ih =>
    rw [List.infix_cons_iff, not_or] at h
    rw [pieces_char h.1, ih h.2, List.modifyHead_cons]

theorem pieces_append {part : Text} (h : ¬mark <:+: part) (rest : Text) :
    pieces (part ++ (mark ++ rest)) = part :: pieces rest := by
  induction part with
  | nil => exact pieces_mark rest
  | cons c cs ih =>
    rw [List.infix_cons_iff, not_or] at h
    have hnot : ¬mark <+: (c :: cs) ++ '$' :: ("organization".toList ++ rest) := by
      rw [isPrefix_append_iff (List.cons_ne_nil c cs) (by decide)]
      exact h.1
    have hchar : pieces (c :: (cs ++ (mark ++ rest)))
        = (pieces (cs ++ (mark ++ rest))).modifyHead (c :: ·) := pieces_char hnot
    rw [List.cons_append, hchar, ih h.2, List.modifyHead_cons]

theorem pieces_join {parts : List Text} (hne : parts ≠ [])
    (h : ∀ part ∈ parts, ¬mark <:+: part) : pieces (join mark parts) = parts := by
  induction parts with
  | nil => exact absurd rfl hne
  | cons part rest ih =>
    have hpart := h part List.mem_cons_self
    cases rest with
    | nil => exact pieces_of_not_mark hpart
    | cons next more =>
      have hrest := ih (by simp) fun q hq => h q (List.mem_cons_of_mem part hq)
      rw [join, List.append_assoc, pieces_append hpart, hrest]
      simp

/-- The pieces of a text are the texts without a placeholder that it is the join of. -/
theorem pieces_eq_iff {text : Text} {parts : List Text} :
    pieces text = parts ↔
      parts ≠ [] ∧ join mark parts = text ∧ ∀ part ∈ parts, ¬mark <:+: part := by
  constructor
  · rintro rfl
    exact ⟨pieces_ne_nil text, join_pieces text, fun part => not_mark_of_mem_pieces⟩
  · rintro ⟨hne, rfl, hparts⟩
    exact pieces_join hne hparts

/-! ## Joining them -/

/-- Whether a placeholder is replaced together with a slash before it. -/
def takesSlash : Placeholder → Bool
  | .organization _ | .combined => false
  | .remove | .literal _ => true

/-- What is left of a piece before a placeholder. -/
def before (mode : Placeholder) (piece : Text) : Text :=
  if mode.takesSlash ∧ piece.getLast? = some '/' then piece.dropLast else piece

/-- The pieces with what stands for a placeholder between them. -/
def joined (mode : Placeholder) : List Text → Text
  | [] => []
  | [last] => last
  | piece :: next :: rest => mode.before piece ++ mode.replacement ++ mode.joined (next :: rest)

variable (mode : Placeholder)

theorem joined_cons {parts : List Text} (hne : parts ≠ []) (piece : Text) :
    mode.joined (piece :: parts) = mode.before piece ++ mode.replacement ++ mode.joined parts := by
  obtain ⟨next, rest, rfl⟩ := List.exists_cons_of_ne_nil hne
  rfl

theorem before_cons {c : Char} {piece : Text} (h : c = '/' → piece ≠ []) :
    mode.before (c :: piece) = c :: mode.before piece := by
  cases piece with
  | nil =>
    have hc : c ≠ '/' := fun heq => h heq rfl
    simp [before, hc]
  | cons d ds =>
    simp only [before, List.getLast?_cons_cons]
    split <;> rfl

theorem before_slash_replacement (slash : Bool) :
    mode.before (if slash then ['/'] else []) ++ mode.replacement = mode.write slash := by
  cases mode <;> cases slash <;> rfl

theorem pieces_token (slash : Bool) (rest : Text) :
    pieces (token slash ++ rest) = (if slash then ['/'] else []) :: pieces rest := by
  cases slash with
  | false => exact pieces_mark rest
  | true => exact pieces_append (show ¬mark <:+: ['/'] by decide) rest

theorem apply_eq_joined (text : Text) : mode.apply text = mode.joined (pieces text) := by
  induction text using induction_on with
  | nil => rfl
  | token slash rest ih =>
    rw [apply_token, pieces_token, joined_cons mode (pieces_ne_nil rest),
      before_slash_replacement, ih]
  | char c rest hfind ih =>
    obtain ⟨part, parts, hparts⟩ := exists_pieces_eq rest
    rw [apply_char mode hfind, pieces_char (not_mark_isPrefix_of_find? hfind), ih, hparts,
      List.modifyHead_cons]
    cases parts with
    | nil => rfl
    | cons next more =>
      have hslash : c = '/' → part ≠ [] := by
        -- the slash would go with the placeholder behind it
        rintro rfl rfl
        have hrest : rest = mark ++ join mark (next :: more) := by
          rw [← join_pieces rest, hparts]
          rfl
        have htoken := find?_token true (join mark (next :: more))
        rw [show token true = '/' :: mark from rfl, List.cons_append, ← hrest, hfind] at htoken
        cases htoken
      have hne : next :: more ≠ [] := List.cons_ne_nil next more
      rw [joined_cons mode hne, joined_cons mode hne, before_cons mode hslash]
      rfl

/-! ## Configurations -/

/-- How the members of a configuration change where placeholders are replaced: the pieces of
a text under a key that ends in `_url` are joined, and anything else stays. -/
inductive Resolves : String × Json → String × Json → Prop
  | url {key text : String} (hkey : "_url".toList <:+ key.toList) :
      Resolves (key, .string text)
        (key, .string (String.ofList (mode.joined (pieces text.toList))))
  | other {key : String} {value : Json}
      (h : "_url".toList <:+ key.toList → ∀ text, value ≠ .string text) :
      Resolves (key, value) (key, value)

theorem resolves_resolveValue (key : String) (value : Json) :
    mode.Resolves (key, value) (key, mode.resolveValue key value) := by
  by_cases hkey : "_url".toList <:+ key.toList
  · have hurl : Configuration.isUrlKey key := List.isSuffixOf_iff_suffix.2 hkey
    cases value with
    | string text =>
      rw [resolveValue_url hurl, apply_eq_joined]
      exact .url hkey
    | _ =>
      rw [resolveValue_of_not_text rfl]
      exact .other fun _ text h => by cases h
  · have hurl : Configuration.isUrlKey key = false := by
      rw [← Bool.not_eq_true]
      exact fun h => hkey (List.isSuffixOf_iff_suffix.1 h)
    rw [resolveValue_of_not_url hurl]
    exact .other fun h => absurd h hkey

theorem resolveUrls_forall₂ (config : Configuration) :
    List.Forall₂ mode.Resolves config.members (config.resolveUrls mode).members := by
  rw [Configuration.resolveUrls, List.forall₂_map_right_iff, List.forall₂_same]
  exact fun member _ => mode.resolves_resolveValue member.1 member.2

/-- Placeholders are replaced by joining the pieces between them, in the texts of URLs and
nowhere else. -/
theorem replaced_between_pieces :
    (∀ text parts, pieces text = parts ↔
      parts ≠ [] ∧ join mark parts = text ∧ ∀ part ∈ parts, ¬mark <:+: part)
      ∧ (∀ (mode : Placeholder) text, mode.apply text = mode.joined (pieces text))
      ∧ ∀ (mode : Placeholder) (config : Configuration),
        List.Forall₂ mode.Resolves config.members (config.resolveUrls mode).members :=
  ⟨fun _ _ => pieces_eq_iff, apply_eq_joined, resolveUrls_forall₂⟩

end Placeholder

end HubRules
