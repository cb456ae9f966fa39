/-!
# Texts

Rule text is handled as the list of its characters, so that every rule below is
a function on lists. This module holds the alias `Text`, cutting and splitting
at a separator, and `Text.scan`, the left-to-right search for recognized tokens
that the reference, placeholder and group rules are built on. Splitting loses
nothing (`join_split`), and tokens written as they were read change nothing
(`replaceTokens_eq_self`).
-/

namespace HubRules

/-- A text as the list of its characters. -/
abbrev Text := List Char

namespace Text

/-- The two parts of a text around the first `sep`, if there is one. -/
def cut (sep : Char) : Text → Option (Text × Text)
  | [] => none
  | c :: cs =>
    if c = sep then some ([], cs)
    else (cut sep cs).map fun parts => (c :: parts.1, parts.2)

/-- The parts of a text between the occurrences of `sep`; there is always at
least one. -/
def split (sep : Char) : Text → List Text
  | [] => [[]]
  | c :: cs =>
    if c = sep then [] :: split sep cs
    else match split sep cs with
      | [] => [[c]]
      | part :: parts => (c :: part) :: parts

/-- The texts with `sep` between them. -/
def join (sep : Text) : List Text → Text
  | [] => []
  | [part] => part
  | part :: parts => part ++ sep ++ join sep parts

theorem cut_eq_none_iff {sep : Char} {text : Text} : cut sep text = none ↔ sep ∉ text := by
  induction text with
  | nil => simp [cut]
  | cons c cs ih =>
    by_cases h : c = sep
    · simp [cut, h]
    · simp [cut, h, ih, Ne.symm h]

theorem cut_eq_some_iff {sep : Char} {text before rest : Text} :
    cut sep text = some (before, rest) ↔ text = before ++ sep :: rest ∧ sep ∉ before := by
  induction text generalizing before with
  | nil => simp [cut]
  | cons c cs ih =>
    by_cases h : c = sep
    · subst h
      cases before with
      | nil => simp [cut]
      | cons b bs => simp +contextual [cut]
    · cases before with
      | nil => simp [cut, h]
      | cons b bs =>
        simp only [cut, h, if_false, Option.map_eq_some_iff, Prod.exists]
        constructor
        · rintro ⟨a, r, hcut, heq⟩
          obtain ⟨⟨rfl, rfl⟩, rfl⟩ : (c = b ∧ a = bs) ∧ r = rest := by simpa using heq
          obtain ⟨rfl, hnot⟩ := ih.1 hcut
          exact ⟨rfl, by simp [hnot, Ne.symm h]⟩
        · rintro ⟨htext, hnot⟩
          refine ⟨bs, rest, ih.2 ?_, ?_⟩ <;> grind

theorem split_ne_nil (sep : Char) (text : Text) : split sep text ≠ [] := by
  cases text with
  | nil => simp [split]
  | cons c cs =>
    simp only [split]
    split
    · simp
    · split <;> simp

theorem join_cons_cons (sep part : Text) (c : Char) (parts : List Text) :
    join sep ((c :: part) :: parts) = c :: join sep (part :: parts) := by
  cases parts <;> simp [join]

theorem join_split (sep : Char) (text : Text) : join [sep] (split sep text) = text := by
  induction text with
  | nil => simp [split, join]
  | cons c cs ih =>
    by_cases h : c = sep
    · subst h
      cases hs : split c cs with
      | nil => exact absurd hs (split_ne_nil c cs)
      | cons part parts =>
        rw [hs] at ih
        simp [split, hs, join, ih]
    · cases hs : split sep cs with
      | nil => exact absurd hs (split_ne_nil sep cs)
      | cons part parts =>
        rw [hs] at ih
        simp [split, h, hs, join_cons_cons, ih]

theorem not_mem_of_mem_split {sep : Char} {text part : Text} (h : part ∈ split sep text) :
    sep ∉ part := by
  induction text generalizing part with
  | nil => simp_all [split]
  | cons c cs ih =>
    by_cases hc : c = sep
    · simp only [split, hc, if_true, List.mem_cons] at h
      rcases h with rfl | h
      · simp
      · exact ih h
    · cases hs : split sep cs with
      | nil => exact absurd hs (split_ne_nil sep cs)
      | cons first parts =>
        simp only [split, hc, if_false, hs, List.mem_cons] at h
        rcases h with rfl | h
        · have := ih (hs ▸ List.mem_cons_self)
          simp [this, Ne.symm hc]
        · exact ih (hs ▸ List.mem_cons_of_mem _ h)

/-- What follows `start`, if the text begins with it. -/
def dropStart? (start : Text) (text : Text) : Option Text :=
  if start.isPrefixOf text then some (text.drop start.length) else none

/-- What precedes `ending`, if the text ends with it. -/
def dropEnding? (ending : Text) (text : Text) : Option Text :=
  if ending.isSuffixOf text then some (text.take (text.length - ending.length)) else none

/-- What follows the first occurrence of `mark`. -/
def after? (mark : Text) : Text → Option Text
  | [] => if mark.isEmpty then some [] else none
  | c :: cs =>
    if mark.isPrefixOf (c :: cs) then some ((c :: cs).drop mark.length) else after? mark cs

/-- The text with its first occurrence of `old` replaced by `new`. -/
def replaceFirst (old new : Text) : Text → Text
  | [] => if old.isEmpty then new else []
  | c :: cs =>
    if old.isPrefixOf (c :: cs) then new ++ (c :: cs).drop old.length
    else c :: replaceFirst old new cs

/-- A scanned text is a sequence of plain characters and recognized tokens. -/
inductive Piece (α : Type) where
  | char (c : Char)
  | token (value : α)
  deriving DecidableEq, Repr

/-- `scan` past `skip` characters that belong to the token before. -/
def scanFrom {α : Type} (recognize : Text → Option (α × Nat)) : Nat → Text → List (Piece α)
  | _, [] => []
  | skip + 1, _ :: cs => scanFrom recognize skip cs
  | 0, c :: cs =>
    match recognize (c :: cs) with
    | some (value, length) => .token value :: scanFrom recognize (length - 1) cs
    | none => .char c :: scanFrom recognize 0 cs

/-- Reads a text from left to right. Where `recognize` finds a token at the head
of what is left it gives the token and its length, and the scan goes on behind
it; any other character stands for itself. -/
def scan {α : Type} (recognize : Text → Option (α × Nat)) (text : Text) : List (Piece α) :=
  scanFrom recognize 0 text

/-- Writes scanned pieces back, each token by `write`. -/
def ofPieces {α : Type} (write : α → Text) (pieces : List (Piece α)) : Text :=
  pieces.flatMap fun
    | .char c => [c]
    | .token value => write value

@[simp] theorem ofPieces_nil {α : Type} (write : α → Text) : ofPieces write [] = [] := rfl

@[simp] theorem ofPieces_char {α : Type} (write : α → Text) (c : Char) (pieces : List (Piece α)) :
    ofPieces write (.char c :: pieces) = c :: ofPieces write pieces := rfl

@[simp] theorem ofPieces_token {α : Type} (write : α → Text) (value : α)
    (pieces : List (Piece α)) :
    ofPieces write (.token value :: pieces) = write value ++ ofPieces write pieces := rfl

/-- The text with every recognized token replaced by what `write` gives for it. -/
def replaceTokens {α : Type} (recognize : Text → Option (α × Nat)) (write : α → Text)
    (text : Text) : Text :=
  ofPieces write (scan recognize text)

/-- A scan that starts inside a token leaves out what is left of it; where tokens are
written as they were read, everything else comes back. -/
theorem ofPieces_scanFrom {α : Type} {recognize : Text → Option (α × Nat)} {write : α → Text}
    (h : ∀ {text value length}, recognize text = some (value, length) →
      0 < length ∧ write value = text.take length)
    (skip : Nat) (text : Text) :
    ofPieces write (scanFrom recognize skip text) = text.drop skip := by
  induction text generalizing skip with
  | nil => cases skip <;> simp [scanFrom]
  | cons c cs ih =>
    cases skip with
    | succ skip => simp [scanFrom, ih]
    | zero =>
      cases hr : recognize (c :: cs) with
      | none => simp [scanFrom, hr, ih]
      | some found =>
        obtain ⟨value, length⟩ := found
        obtain ⟨hpos, hwrite⟩ := h hr
        obtain ⟨n, rfl⟩ := Nat.exists_eq_succ_of_ne_zero (Nat.ne_of_gt hpos)
        simp [scanFrom, hr, ih, hwrite, List.take_succ_cons]

theorem replaceTokens_eq_self {α : Type} {recognize : Text → Option (α × Nat)}
    {write : α → Text}
    (h : ∀ {text value length}, recognize text = some (value, length) →
      0 < length ∧ write value = text.take length) (text : Text) :
    replaceTokens recognize write text = text := by
  simpa [replaceTokens, scan] using ofPieces_scanFrom h 0 text

/-- The text with every occurrence of `old`, which is not empty, replaced by `new`. -/
def replaceAll (old new : Text) (text : Text) : Text :=
  replaceTokens (fun rest => if old.isPrefixOf rest then some ((), old.length) else none)
    (fun _ => new) text

end Text

end HubRules
