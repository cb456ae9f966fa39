import HubRules.Text.Basic
import Mathlib.Data.List.TakeWhile

/-!
# Tokens

Replacing the tokens of a text, one step at a time: a character at which no token begins
stands for itself (`replaceTokens_char`), and so does a run of them (`replaceTokens_run`); a
token gives what is written for it and the rest is read on (`replaceTokens_token`); texts are
taken apart in these steps (`token_induction`). A text whose tokens are the same whatever stands behind it is read by
itself (`scan_append`). Splitting at a separator splits a
concatenation where the separator stands (`split_append`).
-/

namespace HubRules.Text

/-! ## Runs of characters -/

/-- A statement about the characters of a text is decided by looking at each of them. Any
library instance that would go through all characters there are stays behind this one. -/
instance (priority := 2000) decidableForallMem {p : Char → Prop} [DecidablePred p]
    {text : Text} : Decidable (∀ c ∈ text, p c) :=
  List.decidableBAll p text

/-- A run of a class ends where a character outside it stands. -/
theorem takeWhile_append_stop {p : Char → Bool} {run rest : Text} (hrun : ∀ c ∈ run, p c)
    (hrest : ∀ c ∈ rest.head?, p c = false) : (run ++ rest).takeWhile p = run := by
  rw [List.takeWhile_append_of_pos hrun]
  cases rest with
  | nil => simp
  | cons c cs => simp [hrest c rfl]

theorem dropWhile_append_stop {p : Char → Bool} {run rest : Text} (hrun : ∀ c ∈ run, p c)
    (hrest : ∀ c ∈ rest.head?, p c = false) : (run ++ rest).dropWhile p = rest := by
  rw [List.dropWhile_append_of_pos hrun]
  cases rest with
  | nil => simp
  | cons c cs => simp [hrest c rfl]

theorem ne_of_test {p : Char → Bool} {c d : Char} {b : Bool} (hc : p c = b) (hd : p d = !b) :
    c ≠ d := by
  intro heq
  rw [← heq, hc] at hd
  cases b <;> exact absurd hd (by decide)

theorem ne_of_not_mem {sep : Char} {text : Text} (h : sep ∉ text) :
    ∀ c ∈ text, (c != sep) = true := by
  intro c hc
  rw [bne_iff_ne]
  intro heq
  subst heq
  exact h hc

/-- A character outside a run that a text begins with stands behind the run. -/
theorem exists_of_run_append {run rest before behind : Text} {c : Char} (h : c ∉ run)
    (heq : run ++ rest = before ++ c :: behind) :
    ∃ more, before = run ++ more ∧ rest = more ++ c :: behind := by
  rcases List.append_eq_append_iff.1 heq with ⟨more, hbefore, hrest⟩ | ⟨more, hrun, hbehind⟩
  · exact ⟨more, hbefore, hrest⟩
  · cases more with
    | nil => exact ⟨[], by simpa using hrun.symm, by simpa using hbehind.symm⟩
    | cons d ds =>
      obtain ⟨rfl, -⟩ := List.cons.inj hbehind
      exact absurd (hrun ▸ List.mem_append_right before List.mem_cons_self) h

theorem drop_length_takeWhile (p : Char → Bool) (text : Text) :
    text.drop (text.takeWhile p).length = text.dropWhile p := by
  have h := congrArg (List.drop (text.takeWhile p).length)
    (@List.takeWhile_append_dropWhile _ p text)
  rw [List.drop_left] at h
  exact h.symm

theorem take_length_sub (before rest : Text) :
    (before ++ rest).take ((before ++ rest).length - rest.length) = before := by
  rw [List.length_append, Nat.add_sub_cancel, List.take_left]

/-! ## The start and the end of a text -/

@[simp] theorem dropStart?_append (start rest : Text) :
    dropStart? start (start ++ rest) = some rest := by
  simp [dropStart?]

theorem dropStart?_eq_some_iff {start text rest : Text} :
    dropStart? start text = some rest ↔ text = start ++ rest := by
  constructor
  · intro h
    unfold dropStart? at h
    split at h
    · next hpre =>
      obtain ⟨more, rfl⟩ := List.isPrefixOf_iff_prefix.1 hpre
      simp at h
      rw [h]
    · simp at h
  · intro heq
    subst heq
    exact dropStart?_append start rest

@[simp] theorem dropEnding?_append (text ending : Text) :
    dropEnding? ending (text ++ ending) = some text := by
  simp [dropEnding?]

/-! ## Replacing once -/

theorem replaceFirst_append {old : Text} (hne : old ≠ []) (new rest : Text) :
    replaceFirst old new (old ++ rest) = new ++ rest := by
  obtain ⟨c, cs, rfl⟩ := List.exists_cons_of_ne_nil hne
  rw [List.cons_append, replaceFirst, if_pos]
  · rw [← List.cons_append, List.drop_left]
  · rw [List.isPrefixOf_iff_prefix, ← List.cons_append]
    exact List.prefix_append _ rest

theorem replaceFirst_cons {old new cs : Text} {c : Char} (h : ¬old <+: c :: cs) :
    replaceFirst old new (c :: cs) = c :: replaceFirst old new cs := by
  rw [replaceFirst, if_neg (by rwa [List.isPrefixOf_iff_prefix])]

theorem replaceFirst_eq_self {old new text : Text} (hne : old ≠ []) (h : ¬old <:+: text) :
    replaceFirst old new text = text := by
  induction text with
  | nil => rw [replaceFirst, if_neg (by simpa using hne)]
  | cons c cs ih =>
    rw [replaceFirst_cons fun hprefix => h hprefix.isInfix,
      ih fun hin => h (hin.trans (List.suffix_cons c cs).isInfix)]

theorem head?_replaceFirst {old new : Text} (hne : old ≠ []) (hhead : new.head? = old.head?)
    (text : Text) : (replaceFirst old new text).head? = text.head? := by
  cases text with
  | nil => rw [replaceFirst, if_neg (by simpa using hne)]
  | cons c cs =>
    by_cases hprefix : old <+: c :: cs
    · obtain ⟨rest, heq⟩ := hprefix
      obtain ⟨d, ds, rfl⟩ := List.exists_cons_of_ne_nil hne
      rw [← heq, replaceFirst_append hne, List.head?_append, hhead]
      rfl
    · rw [replaceFirst_cons hprefix]
      rfl

/-! ## Reading tokens -/

section Tokens

variable {α : Type} {recognize : Text → Option (α × Nat)} {write : α → Text}

/-- A scan that starts inside a token goes on behind it. -/
theorem scanFrom_drop (recognize : Text → Option (α × Nat)) (skip : Nat) (text : Text) :
    scanFrom recognize skip text = scan recognize (text.drop skip) := by
  induction text generalizing skip with
  | nil => cases skip <;> simp [scan, scanFrom]
  | cons c cs ih =>
    cases skip with
    | zero => rfl
    | succ skip => simpa [scanFrom] using ih skip

@[simp] theorem scan_nil : scan recognize [] = [] := rfl

theorem scan_char {c : Char} {rest : Text} (h : recognize (c :: rest) = none) :
    scan recognize (c :: rest) = .char c :: scan recognize rest := by
  simp [scan, scanFrom, h]

theorem scan_token {token rest : Text} {value : α} (hne : token ≠ [])
    (h : recognize (token ++ rest) = some (value, token.length)) :
    scan recognize (token ++ rest) = .token value :: scan recognize rest := by
  cases token with
  | nil => exact absurd rfl hne
  | cons c cs =>
    rw [List.cons_append] at h ⊢
    simp [scan, scanFrom, h]
    rw [scanFrom_drop, List.drop_left]
    rfl

@[simp] theorem replaceTokens_nil : replaceTokens recognize write [] = [] := rfl

theorem replaceTokens_char {c : Char} {rest : Text} (h : recognize (c :: rest) = none) :
    replaceTokens recognize write (c :: rest) = c :: replaceTokens recognize write rest := by
  simp [replaceTokens, scan_char h]

theorem replaceTokens_token {token rest : Text} {value : α} (hne : token ≠ [])
    (h : recognize (token ++ rest) = some (value, token.length)) :
    replaceTokens recognize write (token ++ rest)
      = write value ++ replaceTokens recognize write rest := by
  simp [replaceTokens, scan_token hne h]

/-- A run in which no token begins stands for itself. -/
theorem replaceTokens_run {run rest : Text}
    (h : ∀ c behind, c :: behind <:+ run → recognize (c :: (behind ++ rest)) = none) :
    replaceTokens recognize write (run ++ rest) = run ++ replaceTokens recognize write rest := by
  induction run with
  | nil => rfl
  | cons c cs ih =>
    have hrun : ∀ d behind, d :: behind <:+ cs → recognize (d :: (behind ++ rest)) = none :=
      fun d behind hsuffix => h d behind (hsuffix.trans (List.suffix_cons c cs))
    rw [List.cons_append, replaceTokens_char (h c cs List.suffix_rfl), ih hrun, List.cons_append]

theorem ofPieces_append (write : α → Text) (first second : List (Piece α)) :
    ofPieces write (first ++ second) = ofPieces write first ++ ofPieces write second := by
  simp [ofPieces]

theorem length_le_ofPieces (write : α → Text) {list : List (Piece α)} {value : α}
    (h : .token value ∈ list) : (write value).length ≤ (ofPieces write list).length := by
  obtain ⟨before, behind, rfl⟩ := List.append_of_mem h
  rw [ofPieces_append, ofPieces_token]
  simp only [List.length_append]
  omega

theorem mem_ofPieces {pieces : List (Piece α)} {c : Char} :
    c ∈ ofPieces write pieces ↔
      .char c ∈ pieces ∨ ∃ value, .token value ∈ pieces ∧ c ∈ write value := by
  induction pieces with
  | nil => simp
  | cons piece rest ih =>
    cases piece with
    | char d => simp [ih, or_assoc]
    | token value =>
      simp only [ofPieces_token, List.mem_append, ih, List.mem_cons, Piece.token.injEq,
        reduceCtorEq, false_or]
      constructor
      · rintro (h | h | ⟨v, hv, hc⟩)
        · exact .inr ⟨value, .inl rfl, h⟩
        · exact .inl h
        · exact .inr ⟨v, .inr hv, hc⟩
      · rintro (h | ⟨v, rfl | hv, hc⟩)
        · exact .inr (.inl h)
        · exact .inl hc
        · exact .inr (.inr ⟨v, hv, hc⟩)

/-- What holds of two texts and is kept where texts are put together holds of two ways to write a
list of pieces, if it holds piece by piece. -/
theorem ofPieces_related {related : Text → Text → Prop} {write' : α → Text}
    {list : List (Piece α)} (nil : related [] [])
    (append : ∀ {a a' b b'}, related a a' → related b b' → related (a ++ b) (a' ++ b'))
    (char : ∀ c, .char c ∈ list → related [c] [c])
    (token : ∀ value, .token value ∈ list → related (write value) (write' value)) :
    related (ofPieces write list) (ofPieces write' list) := by
  induction list with
  | nil => exact nil
  | cons piece rest ih =>
    have ih := ih (fun c hc => char c (List.mem_cons_of_mem piece hc))
      (fun value hvalue => token value (List.mem_cons_of_mem piece hvalue))
    cases piece with
    | char c => exact append (char c List.mem_cons_self) ih
    | token value => exact append (token value List.mem_cons_self) ih

theorem exists_of_token_mem_scan {value : α} :
    ∀ {text : Text} (skip : Nat), .token value ∈ scanFrom recognize skip text →
      ∃ part length, recognize part = some (value, length)
  | [], skip, h => by cases skip <;> simp [scanFrom] at h
  | _ :: cs, skip + 1, h => exists_of_token_mem_scan skip h
  | c :: cs, 0, h => by
    cases hr : recognize (c :: cs) with
    | none =>
      simp only [scanFrom, hr, List.mem_cons, reduceCtorEq, false_or] at h
      exact exists_of_token_mem_scan 0 h
    | some found =>
      obtain ⟨first, length⟩ := found
      simp only [scanFrom, hr, List.mem_cons, Piece.token.injEq] at h
      rcases h with rfl | h
      · exact ⟨c :: cs, length, hr⟩
      · exact exists_of_token_mem_scan (length - 1) h

section Within

variable (hwithin : ∀ {part value length}, recognize part = some (value, length) →
  0 < length ∧ length ≤ part.length)

include hwithin

/-- A token that is recognized within a text is the beginning of the text. -/
theorem exists_token {text : Text} {value : α} {length : Nat}
    (h : recognize text = some (value, length)) :
    ∃ token rest, text = token ++ rest ∧ token ≠ []
      ∧ recognize (token ++ rest) = some (value, token.length) := by
  obtain ⟨hpos, hle⟩ := hwithin h
  have hlength : (text.take length).length = length := by
    rw [List.length_take]
    omega
  refine ⟨text.take length, text.drop length, (List.take_append_drop length text).symm,
    List.length_pos_iff.1 (by omega), ?_⟩
  rw [List.take_append_drop, hlength]
  exact h

/-- Texts are read from left to right, a token or a character at which no token begins at a
time. -/
@[elab_as_elim]
theorem token_induction {motive : Text → Prop} (nil : motive [])
    (char : ∀ c rest, recognize (c :: rest) = none → motive rest → motive (c :: rest))
    (token : ∀ token rest value, token ≠ [] →
      recognize (token ++ rest) = some (value, token.length) → motive rest →
      motive (token ++ rest)) (text : Text) : motive text := by
  induction hn : text.length using Nat.strongRecOn generalizing text with
  | _ n ih =>
    subst hn
    cases text with
    | nil => exact nil
    | cons c cs =>
      cases hr : recognize (c :: cs) with
      | none => exact char c cs hr (ih _ (by simp) _ rfl)
      | some found =>
        obtain ⟨first, rest, heq, hne, hfirst⟩ := exists_token hwithin hr
        have hpos := List.length_pos_iff.2 hne
        rw [heq]
        refine token first rest found.1 hne hfirst (ih _ ?_ _ rfl)
        rw [heq, List.length_append]
        omega

/-- The tokens of a text are not changed by what stands behind it, if each is recognized
within the text and whatever follows. -/
theorem scan_append {text rest : Text}
    (hstable : ∀ part, part ≠ [] → recognize (part ++ rest) = recognize part) :
    scan recognize (text ++ rest) = scan recognize text ++ scan recognize rest := by
  induction text using token_induction hwithin with
  | nil => simp
  | char c cs hnone ih =>
    -- what is recognized here is recognized with the rest behind it, and conversely
    have hsame := hstable (c :: cs) (List.cons_ne_nil c cs)
    rw [hnone, List.cons_append] at hsame
    rw [scan_char hnone, List.cons_append, scan_char hsame, ih, List.cons_append]
  | token token more value hne htoken ih =>
    have hsame := hstable (token ++ more) (by simp [hne])
    rw [htoken, List.append_assoc] at hsame
    rw [List.append_assoc, scan_token hne hsame, scan_token hne htoken, ih, List.cons_append]

/-- A text with its tokens replaced begins as the text does, or with what is written for a
token. -/
theorem head?_replaceTokens
    (hwrite : ∀ {part value length}, recognize part = some (value, length) → write value ≠ [])
    (text : Text) :
    (replaceTokens recognize write text).head? = text.head?
      ∨ ∃ part value length, recognize part = some (value, length)
        ∧ (replaceTokens recognize write text).head? = (write value).head? := by
  cases text with
  | nil => exact .inl rfl
  | cons c cs =>
    cases hr : recognize (c :: cs) with
    | none => exact .inl (by rw [replaceTokens_char hr]; rfl)
    | some found =>
      obtain ⟨token, rest, heq, hne, htoken⟩ := exists_token hwithin hr
      obtain ⟨first, more, hfirst⟩ := List.exists_cons_of_ne_nil (hwrite hr)
      refine .inr ⟨_, found.1, _, hr, ?_⟩
      rw [heq, replaceTokens_token hne htoken, hfirst]
      rfl

end Within

end Tokens

/-! ## Replacing every occurrence -/

section ReplaceAll

variable {old new : Text}

theorem replaceAll_cons {c : Char} {rest : Text} (h : ¬old <+: c :: rest) :
    replaceAll old new (c :: rest) = c :: replaceAll old new rest :=
  replaceTokens_char (if_neg (by rwa [List.isPrefixOf_iff_prefix]))

theorem replaceAll_append (hne : old ≠ []) (rest : Text) :
    replaceAll old new (old ++ rest) = new ++ replaceAll old new rest := by
  have hfound : (if old.isPrefixOf (old ++ rest) then some ((), old.length) else none) =
      some ((), old.length) :=
    if_pos (List.isPrefixOf_iff_prefix.2 (List.prefix_append old rest))
  exact replaceTokens_token hne hfound

/-- A run without the first character of an occurrence stays. -/
theorem replaceAll_run {c : Char} {run : Text} (h : c ∉ run) (rest : Text) :
    replaceAll (c :: old) new (run ++ rest) = run ++ replaceAll (c :: old) new rest := by
  refine replaceTokens_run fun d behind hsuffix => if_neg ?_
  rw [List.isPrefixOf_iff_prefix]
  intro hprefix
  obtain ⟨rfl, -⟩ := List.cons_prefix_cons.1 hprefix
  exact h (hsuffix.mem List.mem_cons_self)

end ReplaceAll

/-! ## Splitting -/

theorem split_of_not_mem {sep : Char} {text : Text} (h : sep ∉ text) :
    split sep text = [text] := by
  induction text with
  | nil => rfl
  | cons c cs ih =>
    obtain ⟨hc, hcs⟩ : ¬sep = c ∧ sep ∉ cs := by simpa using h
    simp [split, Ne.symm hc, ih hcs]

theorem split_append (sep : Char) (before behind : Text) :
    split sep (before ++ sep :: behind) = split sep before ++ split sep behind := by
  induction before with
  | nil => simp [split]
  | cons c cs ih =>
    by_cases h : c = sep
    · simp [split, h, ih]
    · cases hs : split sep cs with
      | nil => exact absurd hs (split_ne_nil sep cs)
      | cons part parts => simp [split, h, ih, hs]

theorem split_join {sep : Char} {parts : List Text} (hne : parts ≠ [])
    (h : ∀ part ∈ parts, sep ∉ part) : split sep (join [sep] parts) = parts := by
  induction parts with
  | nil => exact absurd rfl hne
  | cons part rest ih =>
    have hpart := h part List.mem_cons_self
    cases rest with
    | nil => exact split_of_not_mem hpart
    | cons next more =>
      have hrest := ih (by simp) fun q hq => h q (List.mem_cons_of_mem part hq)
      show split sep (part ++ [sep] ++ join [sep] (next :: more)) = _
      rw [List.append_assoc, List.singleton_append, split_append, split_of_not_mem hpart, hrest,
        List.singleton_append]

theorem toList_intercalate (sep : String) (parts : List String) :
    (sep.intercalate parts).toList = join sep.toList (parts.map String.toList) := by
  rw [String.toList_intercalate]
  induction parts with
  | nil => rfl
  | cons part rest ih =>
    cases rest with
    | nil => simp [join]
    | cons next more =>
      simp only [List.map_cons] at ih ⊢
      rw [List.intercalate_cons_cons, ih]
      rfl

theorem join_cons (sep part : Text) (parts : List Text) :
    join sep (part :: parts) = part ++ parts.flatMap (sep ++ ·) := by
  induction parts generalizing part with
  | nil => simp [join]
  | cons next rest ih => simp [join, ih]

theorem flatMap_append_sep (sep : Text) {parts : List Text} (hne : parts ≠ []) :
    parts.flatMap (· ++ sep) = join sep parts ++ sep := by
  induction parts with
  | nil => exact absurd rfl hne
  | cons part rest ih =>
    cases rest with
    | nil => simp [join]
    | cons next more =>
      show part ++ sep ++ (next :: more).flatMap (· ++ sep) =
        part ++ sep ++ join sep (next :: more) ++ sep
      rw [ih (List.cons_ne_nil next more), List.append_assoc (part ++ sep)]

theorem prefix_join (sep part : Text) (parts : List Text) :
    part <+: join sep (part :: parts) := by
  cases parts with
  | nil => exact List.prefix_rfl
  | cons next rest => exact ⟨sep ++ join sep (next :: rest), by simp [join]⟩

theorem mem_of_mem_split {sep c : Char} {text part : Text} (h : part ∈ split sep text)
    (hc : c ∈ part) : c ∈ text := by
  induction text generalizing part with
  | nil => simp_all [split]
  | cons d ds ih =>
    by_cases hd : d = sep
    · simp only [split, hd, if_true, List.mem_cons] at h
      rcases h with rfl | h
      · simp at hc
      · exact List.mem_cons_of_mem d (ih h hc)
    · cases hs : split sep ds with
      | nil => exact absurd hs (split_ne_nil sep ds)
      | cons first parts =>
        simp only [split, hd, if_false, hs, List.mem_cons] at h
        rcases h with rfl | h
        · rcases List.mem_cons.1 hc with rfl | hc
          · exact List.mem_cons_self
          · exact List.mem_cons_of_mem d (ih (hs ▸ List.mem_cons_self) hc)
        · exact List.mem_cons_of_mem d (ih (hs ▸ List.mem_cons_of_mem first h) hc)

theorem mem_of_mem_join {sep c : Char} {parts : List Text} (h : c ∈ join [sep] parts) :
    c = sep ∨ ∃ part ∈ parts, c ∈ part := by
  induction parts with
  | nil => simp [join] at h
  | cons part rest ih =>
    cases rest with
    | nil => exact .inr ⟨part, List.mem_cons_self, h⟩
    | cons next more =>
      simp only [join, List.append_assoc, List.mem_append, List.mem_singleton] at h
      rcases h with h | rfl | h
      · exact .inr ⟨part, List.mem_cons_self, h⟩
      · exact .inl rfl
      · rcases ih h with h | ⟨found, hfound, hc⟩
        · exact .inl h
        · exact .inr ⟨found, List.mem_cons_of_mem part hfound, hc⟩

end HubRules.Text
