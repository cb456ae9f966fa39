import HubRules.Proofs.Text.Tokens
import HubRules.Proofs.Url.Numerals

/-!
# IPv6 addresses and their texts

An address is written as hexadecimal numbers between colons, its longest run of zeros left out
(`ipv6Text_cases`). It is read back from its text (`ipv6?_ipv6Text`), and every address that is
read has eight pieces of 16 bits (`ipv6?_isNormal`).
-/

namespace HubRules.Host

open Text

/-! ## Texts of addresses -/

/-- The longest run of zeros stands where it is said to stand. -/
theorem longestZeros_spec (pieces : List Nat) (at_ : Nat) :
    ∃ before behind count, longestZeros pieces at_ = (at_ + before.length, count)
      ∧ pieces = before ++ (List.replicate count 0 ++ behind) := by
  induction pieces generalizing at_ with
  | nil => exact ⟨[], [], 0, rfl, rfl⟩
  | cons piece rest ih =>
    obtain ⟨before, behind, count, hlater, hrest⟩ := ih (at_ + 1)
    unfold longestZeros
    simp only [hlater]
    split
    · have hzeros : (piece :: rest).takeWhile (· == 0)
          = List.replicate ((piece :: rest).takeWhile (· == 0)).length 0 := by
        refine List.eq_replicate_iff.2 ⟨rfl, fun n hn => ?_⟩
        have hall : ((piece :: rest).takeWhile (· == 0)).all (· == 0) := List.all_takeWhile
        simpa using List.all_eq_true.1 hall n hn
      refine ⟨[], (piece :: rest).dropWhile (· == 0), _, rfl, ?_⟩
      rw [← hzeros, List.nil_append, List.takeWhile_append_dropWhile]
    · refine ⟨piece :: before, behind, count, ?_, ?_⟩
      · rw [List.length_cons]
        congr 1
        omega
      · rw [List.cons_append, ← hrest]

def colonText (pieces : List Nat) : Text := join [':'] (pieces.map (Nat.toDigits 16))

/-- An address is written with its longest run of zeros left out, or in full. -/
theorem ipv6Text_cases (pieces : List Nat) :
    ipv6Text pieces = colonText pieces
      ∨ ∃ before behind count, 2 ≤ count ∧ pieces = before ++ (List.replicate count 0 ++ behind)
        ∧ ipv6Text pieces = colonText before ++ ':' :: ':' :: colonText behind := by
  obtain ⟨before, behind, count, hrun, hpieces⟩ := longestZeros_spec pieces 0
  unfold ipv6Text
  simp only [hrun, Nat.zero_add]
  split
  · next hcount =>
    right
    have htake : pieces.take before.length = before := by
      rw [hpieces]
      exact List.take_left
    have hdrop : pieces.drop (before.length + count) = behind := by
      rw [hpieces, ← List.append_assoc]
      exact List.drop_left' (by simp)
    refine ⟨before, behind, count, hcount, hpieces, ?_⟩
    rw [htake, hdrop, List.append_assoc]
    rfl
  · exact .inl rfl

theorem isHex_of_mem_toDigits {n : Nat} {c : Char} (h : c ∈ Nat.toDigits 16 n) :
    c ∈ "0123456789abcdef".toList := by
  obtain ⟨d, hd, rfl⟩ := exists_of_mem_toDigits (by decide) h
  have hall : ∀ d < 16, Nat.digitChar d ∈ "0123456789abcdef".toList := by decide
  exact hall d hd

theorem isHex_of_mem_ipv6Text {pieces : List Nat} {c : Char} (h : c ∈ ipv6Text pieces) :
    c ∈ ":0123456789abcdef".toList := by
  have hcolons : ∀ (list : List Nat), ∀ d ∈ colonText list, d ∈ ":0123456789abcdef".toList := by
    intro list d hd
    rcases mem_of_mem_join hd with rfl | ⟨part, hpart, hd⟩
    · decide
    · obtain ⟨n, -, rfl⟩ := List.mem_map.1 hpart
      exact List.mem_cons_of_mem ':' (isHex_of_mem_toDigits hd)
  rcases ipv6Text_cases pieces with htext | ⟨before, behind, count, -, -, htext⟩
  · rw [htext] at h
    exact hcolons pieces c h
  · rw [htext] at h
    rcases List.mem_append.1 h with h | h
    · exact hcolons before c h
    · rcases List.mem_cons.1 h with rfl | h
      · decide
      · rcases List.mem_cons.1 h with rfl | h
        · decide
        · exact hcolons behind c h

theorem not_mem_toDigits {n : Nat} : ':' ∉ Nat.toDigits 16 n ∧ '.' ∉ Nat.toDigits 16 n :=
  ⟨fun h => absurd (isHex_of_mem_toDigits h) (by decide),
    fun h => absurd (isHex_of_mem_toDigits h) (by decide)⟩

theorem colonParts_colonText (pieces : List Nat) :
    colonParts (colonText pieces) = pieces.map (Nat.toDigits 16) := by
  unfold colonParts colonText
  cases pieces with
  | nil => rfl
  | cons piece rest =>
    have hsplit := @split_join ':' ((piece :: rest).map (Nat.toDigits 16)) (by simp) (by
      intro part hpart
      obtain ⟨n, -, rfl⟩ := List.mem_map.1 hpart
      exact not_mem_toDigits.1)
    have hne : (join [':'] ((piece :: rest).map (Nat.toDigits 16))).isEmpty = false := by
      rw [List.isEmpty_eq_false_iff]
      intro hnil
      rw [hnil] at hsplit
      have hhead := congrArg List.head? hsplit
      exact Nat.toDigits_ne_nil (Option.some.inj hhead).symm
    rw [hne, hsplit]
    rfl

theorem ipv6Pieces_toDigits {tail : Bool} {pieces : List Nat} (h : ∀ piece ∈ pieces, piece < 65536) :
    ipv6Pieces tail (pieces.map (Nat.toDigits 16)) = some pieces := by
  induction pieces with
  | nil => rfl
  | cons piece rest ih =>
    have hpiece := h piece List.mem_cons_self
    have hdot : (Nat.toDigits 16 piece).contains '.' = false := by
      rw [List.contains_eq_mem, decide_eq_false_iff_not]
      exact not_mem_toDigits.2
    have hempty : (Nat.toDigits 16 piece).isEmpty = false :=
      List.isEmpty_eq_false_iff.2 Nat.toDigits_ne_nil
    have hlength : (Nat.toDigits 16 piece).length ≤ 4 :=
      (Nat.length_toDigits_le_iff (by decide) (by decide)).2 hpiece
    have hlong : decide ((Nat.toDigits 16 piece).length > 4) = false := by
      rw [decide_eq_false_iff_not]
      omega
    rw [List.map_cons, ipv6Pieces, hdot, hempty, hlong,
      numberOfBase_toDigits (by decide) (by decide),
      ih fun p hp => h p (List.mem_cons_of_mem piece hp)]
    rfl

theorem cutDoubleColon_digits {digits : Text} (h : ':' ∉ digits) (rest : Text) :
    cutDoubleColon (digits ++ rest)
      = (cutDoubleColon rest).map fun parts => (digits ++ parts.1, parts.2) := by
  induction digits with
  | nil => simp
  | cons c cs ih =>
    obtain ⟨hc, hcs⟩ : ':' ≠ c ∧ ':' ∉ cs := by simpa using h
    rw [List.cons_append, cutDoubleColon, ih hcs, Option.map_map]
    · rfl
    · rintro _ rfl
      exact absurd rfl hc

theorem cutDoubleColon_colon {rest : Text} (h : rest.head? ≠ some ':') :
    cutDoubleColon (':' :: rest)
      = (cutDoubleColon rest).map fun parts => (':' :: parts.1, parts.2) := by
  rw [cutDoubleColon]
  rintro cs - rfl
  exact h rfl

theorem head?_colonText {piece : Nat} {more : List Nat} {rest : Text} :
    (colonText (piece :: more) ++ rest).head? ≠ some ':' := by
  obtain ⟨c, cs, hdigits⟩ := List.exists_cons_of_ne_nil (@Nat.toDigits_ne_nil piece 16)
  have hstart : ∃ behind, colonText (piece :: more) = Nat.toDigits 16 piece ++ behind := by
    cases more with
    | nil => exact ⟨[], (List.append_nil _).symm⟩
    | cons next more => exact ⟨_, List.append_assoc ..⟩
  obtain ⟨behind, hstart⟩ := hstart
  rw [hstart, hdigits]
  intro hhead
  obtain rfl : c = ':' := by simpa using hhead
  exact not_mem_toDigits.1 (hdigits ▸ List.mem_cons_self)

theorem cutDoubleColon_colonText (pieces : List Nat) (rest : Text) :
    cutDoubleColon (colonText pieces ++ rest)
      = (cutDoubleColon rest).map fun parts => (colonText pieces ++ parts.1, parts.2) := by
  induction pieces with
  | nil => simp [colonText, join]
  | cons piece more ih =>
    cases more with
    | nil => exact cutDoubleColon_digits not_mem_toDigits.1 rest
    | cons next more =>
      have htext : ∀ tail : Text, colonText (piece :: next :: more) ++ tail
          = Nat.toDigits 16 piece ++ ':' :: (colonText (next :: more) ++ tail) := by
        intro tail
        show (Nat.toDigits 16 piece ++ [':'] ++ colonText (next :: more)) ++ tail = _
        simp
      rw [htext, cutDoubleColon_digits not_mem_toDigits.1, cutDoubleColon_colon head?_colonText, ih,
        Option.map_map, Option.map_map]
      congr 1
      funext parts
      simp only [Function.comp, htext]

theorem ipv6?_ipv6Text {pieces : List Nat} (hlength : pieces.length = 8)
    (hsmall : ∀ piece ∈ pieces, piece < 65536) : ipv6? (ipv6Text pieces) = some pieces := by
  rcases ipv6Text_cases pieces with htext | ⟨before, behind, count, hcount, hpieces, htext⟩
  -- an address in full has no double colon, and one with a gap has it at the gap
  · have hcut : cutDoubleColon (colonText pieces) = none := by
      have := cutDoubleColon_colonText pieces []
      rwa [List.append_nil] at this
    unfold ipv6?
    rw [htext, hcut]
    simp only [colonParts_colonText, ipv6Pieces_toDigits hsmall, Option.bind_eq_bind,
      Option.bind_some, hlength, if_true]
  · have hcut : cutDoubleColon (ipv6Text pieces) = some (colonText before, colonText behind) := by
      rw [htext, cutDoubleColon_colonText]
      simp [cutDoubleColon]
    have hbefore : ∀ piece ∈ before, piece < 65536 := fun piece h =>
      hsmall piece (by rw [hpieces]; exact List.mem_append_left _ h)
    have hbehind : ∀ piece ∈ behind, piece < 65536 := fun piece h =>
      hsmall piece (by rw [hpieces]; exact List.mem_append_right _ (List.mem_append_right _ h))
    have hcounts : before.length + (count + behind.length) = 8 := by
      rw [← hlength, hpieces]
      simp
    have hfew : ¬before.length + behind.length > 7 := by omega
    have hzeros : 8 - before.length - behind.length = count := by omega
    unfold ipv6?
    rw [hcut]
    simp only [colonParts_colonText, ipv6Pieces_toDigits hbefore, ipv6Pieces_toDigits hbehind,
      Option.bind_eq_bind, Option.bind_some, hfew, if_false, hzeros]
    rw [hpieces, List.append_assoc]

/-! ## Addresses that were read -/

theorem forall_of_mapM {α β : Type} {f : α → Option β} {p : β → Prop}
    (hf : ∀ a b, f a = some b → p b) {list : List α} {values : List β}
    (h : list.mapM f = some values) : ∀ b ∈ values, p b := by
  induction list generalizing values with
  | nil =>
    obtain rfl : [] = values := by simpa using h
    simp
  | cons a rest ih =>
    rw [List.mapM_cons] at h
    obtain ⟨b, hb, h⟩ := Option.bind_eq_some_iff.1 h
    obtain ⟨bs, hbs, h⟩ := Option.bind_eq_some_iff.1 h
    obtain rfl : b :: bs = values := by simpa using h
    intro x hx
    rcases List.mem_cons.1 hx with rfl | hx
    · exact hf a x hb
    · exact ih hbs x hx

theorem ipv6Tail_lt {text : Text} {pieces : List Nat} (h : ipv6Tail text = some pieces) :
    ∀ piece ∈ pieces, piece < 65536 := by
  unfold ipv6Tail at h
  obtain ⟨numbers, hnumbers, h⟩ := Option.bind_eq_some_iff.1 h
  have hbyte : ∀ n ∈ numbers, n ≤ 255 := by
    refine forall_of_mapM (fun part n hpart => ?_) hnumbers
    split at hpart
    · exact absurd hpart (by simp)
    · exact absurd hpart (by simp)
    · simp only at hpart
      split at hpart
      · obtain ⟨m, -, hm⟩ := Option.bind_eq_some_iff.1 hpart
        split at hm
        · next hle => exact Option.some.inj hm ▸ hle
        · exact absurd hm (by simp)
      · exact absurd hpart (by simp)
  split at h
  · next a b c d =>
    obtain rfl : [a * 256 + b, c * 256 + d] = pieces := Option.some.inj h
    simp only [List.mem_cons, List.not_mem_nil, or_false, forall_eq_or_imp, forall_eq] at hbyte ⊢
    omega
  · exact absurd h (by simp)

theorem ipv6Pieces_lt {tail : Bool} {parts : List Text} {pieces : List Nat}
    (h : ipv6Pieces tail parts = some pieces) : ∀ piece ∈ pieces, piece < 65536 := by
  induction parts generalizing pieces with
  | nil =>
    obtain rfl : [] = pieces := Option.some.inj h
    simp
  | cons part rest ih =>
    rw [ipv6Pieces] at h
    split at h
    · split at h
      · exact ipv6Tail_lt h
      · exact absurd h (by simp)
    · split at h
      · exact absurd h (by simp)
      · next hshort =>
        simp only [Bool.or_eq_true, decide_eq_true_eq, not_or] at hshort
        obtain ⟨n, hn, h⟩ := Option.bind_eq_some_iff.1 h
        obtain ⟨more, hmore, h⟩ := Option.bind_eq_some_iff.1 h
        obtain rfl : n :: more = pieces := by simpa using h
        intro piece hpiece
        rcases List.mem_cons.1 hpiece with rfl | hpiece
        · have hlt := numberOfBase_lt hn
          have hpow : 16 ^ part.length ≤ 16 ^ 4 := Nat.pow_le_pow_right (by decide) (by omega)
          omega
        · exact ih hmore piece hpiece

theorem ipv6?_isNormal {text : Text} {pieces : List Nat} (h : ipv6? text = some pieces) :
    pieces.length = 8 ∧ ∀ piece ∈ pieces, piece < 65536 := by
  unfold ipv6? at h
  split at h
  · obtain ⟨left, hleft, h⟩ := Option.bind_eq_some_iff.1 h
    obtain ⟨right, hright, h⟩ := Option.bind_eq_some_iff.1 h
    split at h
    · exact absurd h (by simp)
    · next hfew =>
      obtain rfl := Option.some.inj h
      refine ⟨by simp; omega, fun piece hpiece => ?_⟩
      rcases List.mem_append.1 hpiece with hpiece | hpiece
      · rcases List.mem_append.1 hpiece with hpiece | hpiece
        · exact ipv6Pieces_lt hleft piece hpiece
        · rw [List.eq_of_mem_replicate hpiece]
          decide
      · exact ipv6Pieces_lt hright piece hpiece
  · obtain ⟨found, hfound, h⟩ := Option.bind_eq_some_iff.1 h
    split at h
    · next hlength =>
      obtain rfl := Option.some.inj h
      exact ⟨hlength, ipv6Pieces_lt hfound⟩
    · exact absurd h (by simp)

end HubRules.Host
