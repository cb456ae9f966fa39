import HubRules.Proofs.Url.Encoding

/-!
# The beginning and the end of a URL

A scheme is of a normal form when it was read (`readScheme_eq_some`), and is read back
(`IsNormalScheme.readScheme_append`). A text without blanks at its edges is read as it is
(`clean_of_edges`).
-/

namespace HubRules.Url

open Text

/-! ## Schemes -/

def isSchemeChar (c : Char) : Bool := c.isAlphanum || c == '+' || c == '-' || c == '.'

/-- A scheme that stays as it is. -/
structure IsNormalScheme (scheme : Text) : Prop where
  head : ∃ c rest, scheme = c :: rest ∧ c.isAlpha
  chars : ∀ c ∈ scheme, isSchemeChar c
  lower : lowerAscii scheme = scheme

theorem lt_of_isSchemeChar {c : Char} (h : isSchemeChar c) : c.toNat < 128 := by
  simp only [isSchemeChar, Bool.or_eq_true, beq_iff_eq] at h
  rcases h with ((h | rfl) | rfl) | rfl
  · exact lt_of_isAlphanum h
  · decide
  · decide
  · decide

theorem isSchemeChar_toLower {c : Char} (h : isSchemeChar c) :
    isSchemeChar c.toLower ∧ 32 < c.toNat :=
  Host.of_ascii (p := fun c => isSchemeChar c → isSchemeChar c.toLower ∧ 32 < c.toNat) (by decide)
    (lt_of_isSchemeChar h) h

theorem isAlpha_toLower {c : Char} (h : c.isAlpha) : c.toLower.isAlpha :=
  Host.of_ascii (p := fun c => c.isAlpha → c.toLower.isAlpha) (by decide) (lt_of_isAlpha h) h

theorem lowerAscii_lowerAscii (text : Text) : lowerAscii (lowerAscii text) = lowerAscii text := by
  unfold lowerAscii
  rw [List.map_map]
  exact List.map_congr_left fun c _ => Host.toLower_toLower c

theorem readScheme_eq_some {text scheme rest : Text} (h : readScheme text = some (scheme, rest)) :
    IsNormalScheme scheme ∧ ':' :: rest <:+ text := by
  unfold readScheme at h
  split at h
  · cases h
  · next c cs =>
    split at h
    · next halpha =>
      obtain ⟨⟨name, behind⟩, hcut, h⟩ := Option.bind_eq_some_iff.1 h
      dsimp only at h
      split at h
      · next hall =>
        obtain ⟨rfl, rfl⟩ := Prod.mk.inj (Option.some.inj h)
        obtain ⟨htext, -⟩ := cut_eq_some_iff.1 hcut
        have hchars : ∀ d ∈ name, isSchemeChar d := List.all_eq_true.1 hall
        refine ⟨⟨?_, fun d hd => ?_, lowerAscii_lowerAscii name⟩, ?_⟩
        · cases name with
          | nil =>
            obtain rfl := (List.cons.inj htext).1
            exact absurd halpha (by decide)
          | cons d ds =>
            obtain rfl := (List.cons.inj htext).1
            exact ⟨_, _, rfl, isAlpha_toLower halpha⟩
        · obtain ⟨e, he, rfl⟩ := List.mem_map.1 hd
          exact (isSchemeChar_toLower (hchars e he)).1
        · rw [htext]
          exact List.suffix_append _ _
      · cases h
    · cases h

theorem readScheme_eq_none {text : Text} (h : (text.dropWhile isSchemeChar).head? ≠ some ':') :
    readScheme text = none := by
  cases text with
  | nil => rfl
  | cons c cs =>
    have hname : ∀ parts, cut ':' (c :: cs) = some parts → parts.1.all isSchemeChar = false := by
      intro (name, rest) hcut
      rw [Bool.eq_false_iff]
      intro hall
      apply h
      rw [(cut_eq_some_iff.1 hcut).1,
        dropWhile_append_stop (List.all_eq_true.1 hall) (by simp [isSchemeChar])]
      rfl
    show (if c.isAlpha then (cut ':' (c :: cs)).bind fun parts =>
      if parts.1.all isSchemeChar then some (lowerAscii parts.1, parts.2) else none else none) = _
    split
    · refine Option.bind_eq_none_iff.2 fun parts hcut => ?_
      rw [if_neg (ne_true_of_eq_false (hname parts hcut))]
    · rfl

namespace IsNormalScheme

variable {scheme : Text}

theorem readScheme_append (h : IsNormalScheme scheme) (rest : Text) :
    readScheme (scheme ++ ':' :: rest) = some (scheme, rest) := by
  have hcolon : ':' ∉ scheme := fun hmem => absurd (h.chars _ hmem) (by decide)
  have hall : scheme.all isSchemeChar = true := List.all_eq_true.2 h.chars
  have hlower := h.lower
  have hcut : cut ':' (scheme ++ ':' :: rest) = some (scheme, rest) :=
    cut_eq_some_iff.2 ⟨rfl, hcolon⟩
  obtain ⟨c, cs, rfl, halpha⟩ := h.head
  show (if c.isAlpha then (cut ':' (c :: cs ++ ':' :: rest)).bind fun parts =>
    if parts.1.all isSchemeChar then some (lowerAscii parts.1, parts.2) else none else none) = _
  rw [if_pos halpha, hcut, Option.bind_some, if_pos hall, hlower]

theorem lt_of_mem (h : IsNormalScheme scheme) : ∀ c ∈ scheme, 32 < c.toNat :=
  fun c hc => (isSchemeChar_toLower (h.chars c hc)).2

end IsNormalScheme

/-! ## Blanks around a URL -/

theorem dropWhile_blanks {text : Text} (h : ∀ c ∈ text.head?, 32 < c.toNat) :
    text.dropWhile (fun c => decide (c.toNat ≤ 32)) = text := by
  cases text with
  | nil => rfl
  | cons c cs => rw [List.dropWhile_cons, if_neg (by simpa using h c rfl)]

theorem filter_lineEnds {text : Text} (h : ∀ c ∈ text, 32 ≤ c.toNat) :
    text.filter (fun c => !(c == '\t' || c == '\n' || c == '\r')) = text := by
  refine List.filter_eq_self.2 fun c hc => ?_
  have := h c hc
  simp only [Bool.not_eq_true', Bool.or_eq_false_iff, beq_eq_false_iff_ne]
  refine ⟨⟨?_, ?_⟩, ?_⟩ <;> rintro rfl <;> exact absurd this (by decide)

theorem clean_of_edges {text : Text} (hall : ∀ c ∈ text, 32 ≤ c.toNat)
    (hfirst : ∀ c ∈ text.head?, 32 < c.toNat) (hlast : ∀ c ∈ text.getLast?, 32 < c.toNat) :
    clean text = text := by
  unfold clean dropEndWhile
  dsimp only
  rw [dropWhile_blanks hfirst, dropWhile_blanks (by rwa [List.head?_reverse]), List.reverse_reverse,
    filter_lineEnds hall]

theorem clean_of_all {text : Text} (h : ∀ c ∈ text, 32 < c.toNat) : clean text = text :=
  clean_of_edges (fun c hc => Nat.le_of_lt (h c hc)) (fun c hc => h c (List.mem_of_head? hc))
    fun c hc => h c (List.mem_of_getLast? hc)

theorem clean_sublist (text : Text) : (clean text).Sublist text := by
  have hend : ∀ (p : Char → Bool) (text : Text), (dropEndWhile p text).Sublist text := by
    intro p text
    have hreverse := (List.dropWhile_sublist p (l := text.reverse)).reverse
    rwa [List.reverse_reverse] at hreverse
  exact List.filter_sublist.trans ((hend _ _).trans (List.dropWhile_sublist _))

theorem exists_clean_append {start : Text} (hne : start ≠ []) (hstart : ∀ c ∈ start, 32 < c.toNat)
    (rest : Text) : ∃ behind, clean (start ++ rest) = start ++ behind := by
  have hfirst : ∀ c ∈ (start ++ rest).head?, 32 < c.toNat := by
    obtain ⟨c, cs, rfl⟩ := List.exists_cons_of_ne_nil hne
    exact fun d hd => hstart d (Option.some.inj hd ▸ List.mem_cons_self)
  have hend : ∃ behind, dropEndWhile (fun c => decide (c.toNat ≤ 32)) (start ++ rest)
      = start ++ behind := by
    unfold dropEndWhile
    rw [List.reverse_append, List.dropWhile_append]
    split
    · refine ⟨[], ?_⟩
      rw [dropWhile_blanks fun c hc => hstart c (List.mem_reverse.1 (List.mem_of_head? hc)),
        List.reverse_reverse, List.append_nil]
    · exact ⟨_, by rw [List.reverse_append, List.reverse_reverse]⟩
  obtain ⟨behind, hend⟩ := hend
  unfold clean
  dsimp only
  rw [dropWhile_blanks hfirst, hend, List.filter_append,
    filter_lineEnds fun c hc => Nat.le_of_lt (hstart c hc)]
  exact ⟨_, rfl⟩

theorem readScheme_clean_slash (rest : Text) : readScheme (clean ('/' :: rest)) = none := by
  obtain ⟨behind, hclean⟩ := exists_clean_append (List.cons_ne_nil '/' [])
    (List.forall_mem_singleton.2 (by decide)) rest
  rw [show clean ('/' :: rest) = '/' :: behind from hclean]
  rfl

theorem getLast?_clean {text : Text} : ∀ c ∈ (clean text).getLast?, 32 < c.toNat := by
  unfold clean dropEndWhile
  dsimp only
  generalize (text.dropWhile fun c => decide (c.toNat ≤ 32)).reverse = reversed
  cases hkept : reversed.dropWhile fun c => decide (c.toNat ≤ 32) with
  | nil => simp
  | cons d ds =>
    have hd : 32 < d.toNat := by
      have := List.head?_dropWhile_not (fun c => decide (c.toNat ≤ 32)) reversed
      rw [hkept] at this
      simpa using this
    have hstays : ∀ e ∈ [d], 32 ≤ e.toNat := by simpa using Nat.le_of_lt hd
    intro c hc
    rw [List.reverse_cons, List.filter_append, filter_lineEnds hstays, List.getLast?_concat] at hc
    rwa [← Option.some.inj hc]

/-- What was freed of blanks stays as it is behind a text without blanks. -/
theorem clean_append_clean {start : Text} (hne : start ≠ []) (hstart : ∀ c ∈ start, 32 < c.toNat)
    (text : Text) : clean (start ++ clean text) = start ++ clean text := by
  have hfirst : ∀ c ∈ (start ++ clean text).head?, 32 < c.toNat := by
    obtain ⟨c, cs, rfl⟩ := List.exists_cons_of_ne_nil hne
    exact fun d hd => hstart d (Option.some.inj hd ▸ List.mem_cons_self)
  have hlast : ∀ c ∈ (start ++ clean text).reverse.head?, 32 < c.toNat := by
    intro c hc
    rw [List.head?_reverse, List.getLast?_append] at hc
    cases hclean : (clean text).getLast? with
    | none =>
      rw [hclean, Option.none_or] at hc
      exact hstart c (List.mem_of_getLast? hc)
    | some d =>
      rw [hclean, Option.some_or] at hc
      exact getLast?_clean c (hclean.trans hc)
  have hfilter : (clean text).filter (fun c => !(c == '\t' || c == '\n' || c == '\r'))
      = clean text := by
    unfold clean
    rw [List.filter_filter]
    simp only [Bool.and_self]
  calc clean (start ++ clean text)
      = (start ++ clean text).filter (fun c => !(c == '\t' || c == '\n' || c == '\r')) := by
        rw [clean, dropEndWhile, dropWhile_blanks hfirst, dropWhile_blanks hlast,
          List.reverse_reverse]
    _ = start ++ clean text := by
        rw [List.filter_append, filter_lineEnds fun c hc => Nat.le_of_lt (hstart c hc), hfilter]

end HubRules.Url
