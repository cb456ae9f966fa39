import HubRules.Url.Parser
import HubRules.Proofs.Url.HostText

/-!
# Percent-encoding

What is encoded consists of characters that are kept, and of signs for bytes
(`isPlain_percentEncode`), so that it stays as it is when it is encoded again. Encoding makes no
segment of a path stand for a directory (`isSingleDot_percentEncode`,
`isDoubleDot_percentEncode`).
-/

namespace HubRules.Url

open Text

def isPlain (also : Char → Bool) (c : Char) : Bool :=
  !(c.toNat < 32 || c.toNat ≥ 127 || also c)

/-- A text that percent-encoding leaves as it is. -/
def IsPlain (also : Char → Bool) (text : Text) : Prop := ∀ c ∈ text, isPlain also c

def byteSigns : Text := "%0123456789ABCDEF".toList

variable {also : Char → Bool}

theorem lt_of_isPlain {c : Char} (h : isPlain also c) : 32 ≤ c.toNat ∧ c.toNat < 127 := by
  simp only [isPlain, Bool.not_eq_true', Bool.or_eq_false_iff, decide_eq_false_iff_not] at h
  omega

theorem lt_of_isAlphanum {c : Char} (h : c.isAlphanum) : c.toNat < 128 := by
  have hbound : c.val ≤ 'Z'.val ∨ c.val ≤ 'z'.val ∨ c.val ≤ '9'.val := by
    rcases Bool.or_eq_true_iff.1 h with h | h
    · rcases Bool.or_eq_true_iff.1 h with h | h
      · exact .inl (of_decide_eq_true h).2
      · exact .inr (.inl (of_decide_eq_true (Bool.and_eq_true_iff.1 h).2))
    · exact .inr (.inr (of_decide_eq_true (Bool.and_eq_true_iff.1 h).2))
  rcases hbound with h | h | h <;>
    exact Nat.lt_of_le_of_lt (UInt32.le_iff_toNat_le.1 h) (by decide)

theorem lt_of_isAlpha {c : Char} (h : c.isAlpha) : c.toNat < 128 :=
  lt_of_isAlphanum (by unfold Char.isAlphanum; rw [h]; rfl)

/-- What holds of the plain ASCII characters holds of all plain ones. -/
theorem of_isPlain {p : Char → Prop} {c : Char}
    (hall : ∀ n < 128, isPlain also (Char.ofNat n) → p (Char.ofNat n)) (h : isPlain also c) :
    p c :=
  Host.of_ascii (p := fun c => isPlain also c → p c) hall
    (Nat.lt_succ_of_lt (lt_of_isPlain h).2) h

theorem lt_of_plain (hblank : also ' ') {c : Char} (h : isPlain also c) :
    32 < c.toNat := by
  refine Nat.lt_of_le_of_ne (lt_of_isPlain h).1 fun heq => ?_
  have hc : c = ' ' := by
    rw [← Char.ofNat_toNat c, ← heq]
  rw [hc, isPlain, hblank] at h
  exact absurd h (by simp)

theorem percentEncode_cons (also : Char → Bool) (c : Char) (rest : Text) :
    percentEncode also (c :: rest)
      = (if isPlain also c then [c] else (String.utf8EncodeChar c).flatMap percentByte)
        ++ percentEncode also rest := by
  unfold percentEncode isPlain
  rw [List.flatMap_cons]
  cases (c.toNat < 32 || c.toNat ≥ 127 || also c) <;> rfl

theorem percentEncode_of_isPlain {text : Text} (h : IsPlain also text) :
    percentEncode also text = text := by
  induction text with
  | nil => rfl
  | cons c cs ih =>
    rw [percentEncode_cons, if_pos (h c List.mem_cons_self),
      ih fun d hd => h d (List.mem_cons_of_mem c hd)]
    rfl

theorem mem_percentByte {b : UInt8} {c : Char} (h : c ∈ percentByte b) : c ∈ byteSigns := by
  have hdigit : ∀ n < 16, ((Nat.toDigits 16 n).getD 0 '0').toUpper ∈ byteSigns := by decide
  have hbyte := b.toNat_lt
  simp only [percentByte, List.mem_cons, List.not_mem_nil, or_false] at h
  rcases h with rfl | rfl | rfl
  · decide
  · exact hdigit (b.toNat / 16) (by omega)
  · exact hdigit (b.toNat % 16) (by omega)

theorem mem_percentEncode {text : Text} {c : Char} (h : c ∈ percentEncode also text) :
    c ∈ byteSigns ∨ c ∈ text ∧ isPlain also c := by
  induction text with
  | nil => exact absurd h List.not_mem_nil
  | cons d ds ih =>
    rw [percentEncode_cons] at h
    rcases List.mem_append.1 h with h | h
    · split at h
      · next hplain =>
        obtain rfl := List.mem_singleton.1 h
        exact .inr ⟨List.mem_cons_self, hplain⟩
      · obtain ⟨b, -, hc⟩ := List.mem_flatMap.1 h
        exact .inl (mem_percentByte hc)
    · exact (ih h).imp_right fun ⟨hmem, hplain⟩ => ⟨List.mem_cons_of_mem d hmem, hplain⟩

theorem isPlain_percentEncode (hsigns : IsPlain also byteSigns) (text : Text) :
    IsPlain also (percentEncode also text) := by
  intro c hc
  rcases mem_percentEncode hc with hsign | ⟨-, hplain⟩
  · exact hsigns c hsign
  · exact hplain

theorem exists_percentByte_append (c : Char) :
    ∃ b bytes, String.utf8EncodeChar c = b :: bytes
      ∧ (String.utf8EncodeChar c).flatMap percentByte
        = percentByte b ++ bytes.flatMap percentByte := by
  obtain ⟨b, bytes, hbytes⟩ := List.exists_cons_of_ne_nil (@String.utf8EncodeChar_ne_nil c)
  exact ⟨b, bytes, hbytes, by rw [hbytes, List.flatMap_cons]⟩

/-- A text that encoding changes has a percent sign afterwards. -/
theorem percentEncode_eq_self {text : Text} (h : '%' ∉ percentEncode also text) :
    percentEncode also text = text := by
  induction text with
  | nil => rfl
  | cons c cs ih =>
    rw [percentEncode_cons] at h ⊢
    split
    · rw [ih fun hmem => h (List.mem_append_right _ hmem)]
      rfl
    · next hplain =>
      obtain ⟨b, bytes, -, hsigns⟩ := exists_percentByte_append c
      rw [if_neg hplain, hsigns] at h
      exact absurd (by simp [percentByte]) h

theorem eq_nil_of_percentEncode {text : Text} (h : percentEncode also text = []) : text = [] := by
  rw [← percentEncode_eq_self (show '%' ∉ percentEncode also text by simp [h]), h]

theorem head?_percentEncode {text : Text} {c : Char}
    (h : (percentEncode also text).head? = some c) :
    c = '%' ∨ text.head? = some c := by
  cases text with
  | nil => cases h
  | cons d ds =>
    rw [percentEncode_cons] at h
    split at h
    · exact .inr h
    · obtain ⟨b, bytes, -, hsigns⟩ := exists_percentByte_append d
      rw [hsigns] at h
      exact .inl (Option.some.inj h).symm

theorem getLast?_percentEncode {text : Text} {c : Char}
    (h : (percentEncode also text).getLast? = some c) : c ∈ byteSigns ∨ text.getLast? = some c := by
  rcases List.eq_nil_or_concat text with rfl | ⟨before, d, rfl⟩
  · cases h
  · have hne : percentEncode also [d] ≠ [] := fun hnil =>
      absurd (eq_nil_of_percentEncode hnil) (by simp)
    have happend : percentEncode also (before ++ [d])
        = percentEncode also before ++ percentEncode also [d] := List.flatMap_append
    rw [List.concat_eq_append] at h ⊢
    have hlast : (percentEncode also [d]).getLast? = some c := by
      rwa [happend, List.getLast?_append, List.getLast?_eq_some_getLast hne, Option.some_or,
        ← List.getLast?_eq_some_getLast hne] at h
    rcases mem_percentEncode (List.mem_of_getLast? hlast) with hsign | ⟨hmem, -⟩
    · exact .inl hsign
    · rw [List.mem_singleton.1 hmem]
      exact .inr List.getLast?_concat

/-! ## Dots -/

/-- A text that stands for a dot in a segment, in lower case. -/
def IsDot (text : Text) : Prop := text = ['.'] ∨ text = "%2e".toList

theorem isSingleDot_iff {segment : Text} : isSingleDot segment ↔ IsDot (lowerAscii segment) := by
  simp only [isSingleDot, List.any_cons, List.any_nil, Bool.or_false, Bool.or_eq_true, beq_iff_eq,
    IsDot]
  exact or_congr eq_comm eq_comm

theorem isDoubleDot_iff {segment : Text} :
    isDoubleDot segment ↔ ∃ first second, IsDot first ∧ IsDot second
      ∧ lowerAscii segment = first ++ second := by
  simp only [isDoubleDot, List.any_cons, List.any_nil, Bool.or_false, Bool.or_eq_true, beq_iff_eq]
  constructor
  · rintro (h | h | h | h)
    · exact ⟨['.'], ['.'], .inl rfl, .inl rfl, h.symm⟩
    · exact ⟨['.'], "%2e".toList, .inl rfl, .inr rfl, h.symm⟩
    · exact ⟨"%2e".toList, ['.'], .inr rfl, .inl rfl, h.symm⟩
    · exact ⟨"%2e".toList, "%2e".toList, .inr rfl, .inr rfl, h.symm⟩
  · rintro ⟨first, second, rfl | rfl, rfl | rfl, h⟩
    · exact .inl h.symm
    · exact .inr (.inl h.symm)
    · exact .inr (.inr (.inl h.symm))
    · exact .inr (.inr (.inr h.symm))

theorem not_dots_of_start {segment : Text}
    (h : ∀ dot rest, IsDot dot → lowerAscii segment ≠ dot ++ rest) :
    isSingleDot segment = false ∧ isDoubleDot segment = false := by
  constructor
  · rw [Bool.eq_false_iff]
    intro hdot
    exact h _ [] (isSingleDot_iff.1 hdot) (List.append_nil _).symm
  · rw [Bool.eq_false_iff]
    intro hdots
    obtain ⟨dot, rest, hdot, -, heq⟩ := isDoubleDot_iff.1 hdots
    exact h dot rest hdot heq

/-- The first byte of a character is that of a dot only for a dot. -/
theorem eq_dot_of_utf8EncodeChar {c : Char} {bytes : List UInt8}
    (h : String.utf8EncodeChar c = 46 :: bytes) : c = '.' := by
  -- the first of several bytes has its two highest bits set
  have hhigh : ∀ b lead : UInt8, 192 ≤ lead.toNat → b ||| lead ≠ 46 := by
    intro b lead hlead hb
    have hle : lead.toNat ≤ b.toNat ||| lead.toNat := Nat.right_le_or
    have := congrArg UInt8.toNat hb
    rw [UInt8.toNat_or] at this
    have hdot : (46 : UInt8).toNat = 46 := rfl
    omega
  have hsize : c.utf8Size = 1 ∨ c.utf8Size = 2 ∨ c.utf8Size = 3 ∨ c.utf8Size = 4 := by
    have := c.utf8Size_pos
    have := c.utf8Size_le_four
    omega
  rcases hsize with hone | htwo | hthree | hfour
  · rw [String.utf8EncodeChar_eq_singleton hone] at h
    have hbyte : c.val.toUInt8 = 46 := (List.cons.inj h).1
    have hlt : c.toNat < 128 :=
      Nat.lt_succ_of_le (UInt32.le_iff_toNat_le.1 (Char.utf8Size_eq_one_iff.1 hone))
    have hnat : c.toNat % 256 = 46 := congrArg UInt8.toNat hbyte
    have : c.toNat = 46 := by omega
    rw [← Char.ofNat_toNat c, this]
  · rw [String.utf8EncodeChar_eq_cons_cons htwo] at h
    exact absurd (List.cons.inj h).1 (hhigh _ _ (by decide))
  · rw [String.utf8EncodeChar_eq_cons_cons_cons hthree] at h
    exact absurd (List.cons.inj h).1 (hhigh _ _ (by decide))
  · rw [String.utf8EncodeChar_eq_cons_cons_cons_cons hfour] at h
    exact absurd (List.cons.inj h).1 (hhigh _ _ (by decide))

theorem eq_dot_of_percentByte {b : UInt8} (h : lowerAscii (percentByte b) = "%2e".toList) :
    b = 46 := by
  have hall : ∀ n < 256, lowerAscii (percentByte (UInt8.ofNat n)) = "%2e".toList → n = 46 := by
    decide +kernel
  have hnat := hall b.toNat b.toNat_lt (by rw [UInt8.ofNat_toNat]; exact h)
  exact UInt8.toNat_inj.1 hnat

/-- A sign other than `%` at the head of an encoded text stands there for itself. -/
theorem exists_of_lowerAscii_cons {c : Char} {text behind : Text} (hc : c ≠ '%')
    (h : c :: behind = lowerAscii (percentEncode also text)) :
    ∃ d rest, text = d :: rest ∧ d.toLower = c
      ∧ behind = lowerAscii (percentEncode also rest) := by
  cases text with
  | nil => cases h
  | cons d rest =>
    rw [percentEncode_cons] at h
    split at h
    · obtain ⟨hhead, htail⟩ := List.cons.inj h
      exact ⟨d, rest, rfl, hhead.symm, htail⟩
    · obtain ⟨b, bytes, -, hsigns⟩ := exists_percentByte_append d
      rw [hsigns] at h
      exact absurd (List.cons.inj h).1 hc

theorem exists_of_isDot {text start behind : Text} (hstart : IsDot start)
    (h : start ++ behind = lowerAscii (percentEncode inPath text)) :
    ∃ before rest, text = before ++ rest ∧ lowerAscii before = start
      ∧ behind = lowerAscii (percentEncode inPath rest) := by
  rcases hstart with rfl | rfl
  · obtain ⟨d, rest, rfl, hd, hrest⟩ := exists_of_lowerAscii_cons (by decide) h
    exact ⟨[d], rest, rfl, congrArg (fun c => [c]) hd, hrest⟩
  · cases text with
    | nil => cases h
    | cons c cs =>
      rw [percentEncode_cons] at h
      split at h
      · obtain ⟨hhead, htail⟩ := List.cons.inj h
        obtain ⟨d, ds, rfl, hd, htail⟩ := exists_of_lowerAscii_cons (by decide) htail
        obtain ⟨e, rest, rfl, he, hrest⟩ := exists_of_lowerAscii_cons (by decide) htail
        refine ⟨[c, d, e], rest, rfl, ?_, hrest⟩
        show [c.toLower, d.toLower, e.toLower] = _
        rw [hd, he, ← hhead]
        rfl
      · next hplain =>
        -- the signs for a character begin with `%2e` only for a dot, which is plain
        obtain ⟨b, bytes, hbytes, hsigns⟩ := exists_percentByte_append c
        rw [hsigns, List.append_assoc] at h
        unfold lowerAscii at h
        rw [List.map_append] at h
        have hlength : "%2e".toList.length = ((percentByte b).map Char.toLower).length := by
          rw [List.length_map]
          rfl
        obtain rfl := eq_dot_of_percentByte (List.append_inj_left h hlength).symm
        obtain rfl := eq_dot_of_utf8EncodeChar hbytes
        exact absurd (by decide) hplain

theorem eq_nil_of_lowerAscii {text : Text} (h : [] = lowerAscii (percentEncode also text)) :
    text = [] :=
  eq_nil_of_percentEncode (List.map_eq_nil_iff.1 h.symm)

theorem isSingleDot_percentEncode {segment : Text} (h : isSingleDot segment = false) :
    isSingleDot (percentEncode inPath segment) = false := by
  rw [Bool.eq_false_iff] at h ⊢
  intro hdot
  obtain ⟨before, rest, rfl, hbefore, hrest⟩ :=
    exists_of_isDot (isSingleDot_iff.1 hdot) (List.append_nil _)
  obtain rfl := eq_nil_of_lowerAscii hrest
  rw [List.append_nil] at h hbefore hdot
  exact h (isSingleDot_iff.2 (hbefore ▸ isSingleDot_iff.1 hdot))

theorem isDoubleDot_percentEncode {segment : Text} (h : isDoubleDot segment = false) :
    isDoubleDot (percentEncode inPath segment) = false := by
  rw [Bool.eq_false_iff] at h ⊢
  intro hdot
  obtain ⟨first, second, hfirst, hsecond, heq⟩ := isDoubleDot_iff.1 hdot
  obtain ⟨before, rest, rfl, hbefore, hrest⟩ := exists_of_isDot hfirst heq.symm
  obtain ⟨middle, last, rfl, hmiddle, hlast⟩ :=
    exists_of_isDot hsecond ((List.append_nil second).trans hrest)
  obtain rfl := eq_nil_of_lowerAscii hlast
  refine h (isDoubleDot_iff.2 ⟨first, second, hfirst, hsecond, ?_⟩)
  rw [← hbefore, ← hmiddle, List.append_nil]
  exact List.map_append

end HubRules.Url
