import HubRules.Proofs.Url.Ipv6

/-!
# Hosts and their texts

A host that was read is of a normal form (`ofSpecial_isNormal`), and the text of a host of
that form is read as the host again (`ofSpecial_toText`).
-/

namespace HubRules

open Text

namespace Host

/-- The hosts that are read from texts. -/
def IsNormal : Host → Prop
  | .domain name => name ≠ [] ∧ (∀ c ∈ name, isForbidden c = false) ∧ lowerAscii name = name
      ∧ endsInNumber name = false
  | .ipv4 address => address < 4294967296
  | .ipv6 pieces => pieces.length = 8 ∧ ∀ piece ∈ pieces, piece < 65536

/-! ## Characters of names -/

theorem of_ascii {p : Char → Prop} (h : ∀ n < 128, p (Char.ofNat n)) {c : Char}
    (hc : c.toNat < 128) : p c := by
  rw [← Char.ofNat_toNat c]
  exact h c.toNat hc

theorem toLower_of_not_ascii {c : Char} (h : ¬c.toNat < 128) : c.toLower = c := by
  unfold Char.toLower
  rw [dif_neg]
  rintro ⟨-, hle⟩
  have : c.toNat ≤ 90 := UInt32.le_iff_toNat_le.1 hle
  omega

theorem toLower_toLower (c : Char) : c.toLower.toLower = c.toLower := by
  by_cases hc : c.toNat < 128
  · exact of_ascii (p := fun c => c.toLower.toLower = c.toLower) (by decide) hc
  · rw [toLower_of_not_ascii hc, toLower_of_not_ascii hc]

theorem utf8EncodeChar_of_lt {c : Char} (h : c.toNat < 128) :
    String.utf8EncodeChar c = [UInt8.ofNat c.toNat] := by
  have hsize : c.utf8Size = 1 := by
    unfold Char.utf8Size
    have hle : c.val ≤ 0x7f := UInt32.le_iff_toNat_le.2 (Nat.le_of_lt_succ h)
    simp [hle]
  rw [String.utf8EncodeChar_eq_singleton hsize]
  rfl

theorem percentDecode_cons {c : Char} {rest : Text} (h : c ≠ '%') :
    percentDecode (c :: rest) = String.utf8EncodeChar c ++ percentDecode rest := by
  rw [percentDecode]
  rintro a b cs rfl
  exact absurd rfl h

theorem decode_of_ascii {text : Text} (h : ∀ c ∈ text, c.toNat < 128 ∧ c ≠ '%') :
    (percentDecode text).map (fun b => Char.ofNat b.toNat) = text := by
  induction text with
  | nil => rfl
  | cons c cs ih =>
    obtain ⟨hascii, hpercent⟩ := h c List.mem_cons_self
    have hbyte : Char.ofNat (UInt8.ofNat c.toNat).toNat = c := by
      have hlt : c.toNat < UInt8.size := Nat.lt_trans hascii (by decide)
      rw [UInt8.toNat_ofNat_of_lt' hlt]
      exact Char.ofNat_toNat c
    rw [percentDecode_cons hpercent, utf8EncodeChar_of_lt hascii, List.singleton_append,
      List.map_cons, hbyte, ih fun d hd => h d (List.mem_cons_of_mem c hd)]

/-! ## Names -/

theorem lt_of_not_isForbidden {c : Char} (h : isForbidden c = false) :
    32 < c.toNat ∧ c.toNat < 127 ∧ c ≠ '%' ∧ c ≠ '[' := by
  simp only [isForbidden, Bool.or_eq_false_iff, decide_eq_false_iff_not, Nat.not_le,
    ge_iff_le] at h
  obtain ⟨⟨hlow, hhigh⟩, hsigns⟩ := h
  exact ⟨hlow, hhigh, ne_of_test hsigns rfl, ne_of_test hsigns rfl⟩

theorem ofSpecial_name {name : Text} (hne : name ≠ [])
    (hforbidden : ∀ c ∈ name, isForbidden c = false) (hlower : lowerAscii name = name) :
    ofSpecial name = if endsInNumber name then
        match ipv4? name with
        | some address => .ok (.ipv4 address)
        | none => .error .invalidIpv4
      else .ok (.domain name) := by
  have hbracket : name.head? ≠ some '[' := fun h =>
    (lt_of_not_isForbidden (hforbidden _ (List.mem_of_head? h))).2.2.2 rfl
  have hdecode : (percentDecode name).map (fun b => Char.ofNat b.toNat) = name := by
    refine decode_of_ascii fun c hc => ?_
    obtain ⟨-, hlt, hpercent, -⟩ := lt_of_not_isForbidden (hforbidden c hc)
    exact ⟨by omega, hpercent⟩
  have hany : name.any isForbidden = false := by
    rw [List.any_eq_false]
    intro c hc
    rw [hforbidden c hc]
    exact Bool.false_ne_true
  have hempty : name.isEmpty = false := by simpa using hne
  unfold ofSpecial
  rw [if_neg hbracket]
  simp only [hdecode, hlower]
  exact (if_neg (ne_true_of_eq_false hany)).trans (if_neg (ne_true_of_eq_false hempty))

theorem exists_of_bracketed {text : Text} {host : Host} (h : bracketed text = .ok host) :
    ∃ pieces inside, host = .ipv6 pieces ∧ ipv6? inside = some pieces := by
  unfold bracketed at h
  split at h
  · cases hpieces : ipv6? (text.drop 1).dropLast with
    | none =>
      rw [hpieces] at h
      exact absurd h (by simp)
    | some pieces =>
      rw [hpieces] at h
      exact ⟨pieces, _, (Except.ok.inj h).symm, hpieces⟩
  · exact absurd h (by simp)

/-- What a host was read from: an address in brackets, or a name. -/
theorem ofSpecial_cases {text : Text} {host : Host} (h : ofSpecial text = .ok host) :
    (∃ pieces inside, host = .ipv6 pieces ∧ ipv6? inside = some pieces)
      ∨ ∃ name, name ≠ [] ∧ (∀ c ∈ name, isForbidden c = false) ∧ lowerAscii name = name
        ∧ (endsInNumber name = false ∧ host = .domain name
          ∨ ∃ address, host = .ipv4 address ∧ ipv4? name = some address) := by
  unfold ofSpecial at h
  split at h
  · exact .inl (exists_of_bracketed h)
  · right
    simp only at h
    generalize hname : lowerAscii ((percentDecode text).map fun b => Char.ofNat b.toNat) = name at h
    have hlower : lowerAscii name = name := by
      rw [← hname]
      unfold lowerAscii
      rw [List.map_map]
      exact List.map_congr_left fun c _ => toLower_toLower c
    split at h
    · exact absurd h (by simp)
    · next hforbidden =>
      have hforbidden' : ∀ c ∈ name, isForbidden c = false := by
        simpa using hforbidden
      split at h
      · exact absurd h (by simp)
      · next hempty =>
        have hne : name ≠ [] := by simpa using hempty
        refine ⟨name, hne, hforbidden', hlower, ?_⟩
        split at h
        · right
          cases haddress : ipv4? name with
          | none => simp [haddress] at h
          | some address =>
            simp only [haddress, Except.ok.injEq] at h
            exact ⟨address, h.symm, rfl⟩
        · next hnumber =>
          left
          exact ⟨by simpa using hnumber, (Except.ok.inj h).symm⟩

/-! ## IPv4 addresses -/

theorem ipv4Number_of_ne {c : Char} {digits : Text} (h : c ≠ '0') :
    ipv4Number (c :: digits) = numberOfBase 10 (c :: digits) := by
  unfold ipv4Number
  split
  · next heq => exact absurd heq (by simp)
  · next heq => exact absurd (List.cons.inj heq).1 h
  · next heq => exact absurd (List.cons.inj heq).1 h
  · next heq => exact absurd (List.cons.inj heq).1 h
  · rfl

theorem ipv4Number_ofNat (n : Nat) : ipv4Number (Text.ofNat n) = some n := by
  by_cases hn : n = 0
  · rw [hn]
    rfl
  · obtain ⟨c, digits, htext⟩ := List.exists_cons_of_ne_nil (@Nat.toDigits_ne_nil n 10)
    have hzero : c ≠ '0' := by
      intro heq
      subst heq
      exact head?_toDigits_ne (by decide) (by decide) hn (congrArg List.head? htext)
    unfold Text.ofNat
    rw [htext, ipv4Number_of_ne hzero, ← htext]
    exact numberOfBase_toDigits (by decide) (by decide) n

theorem ipv4OfNumbers_eq {numbers before : List Nat} {last : Nat}
    (h : numbers.reverse = last :: before) :
    ipv4OfNumbers numbers = if before.length > 3 || last ≥ Nat.pow 2 (32 - 8 * before.length)
        || before.any (· > 255) then none
      else some (before.reverse.zipIdx.foldl
        (fun acc (n, i) => acc + n * Nat.pow 2 (8 * (3 - i))) 0 + last) := by
  unfold ipv4OfNumbers
  rw [h]

/-- The last number of an address has the bits that the others leave. -/
theorem ipv4OfNumbers_eq_some {numbers : List Nat} {address : Nat}
    (h : ipv4OfNumbers numbers = some address) :
    ∃ (last : Nat) (before : List Nat), before.length ≤ 3
      ∧ last < Nat.pow 2 (32 - 8 * before.length) ∧ (∀ n ∈ before, n ≤ 255)
      ∧ before.reverse.zipIdx.foldl (fun acc (n, i) => acc + n * Nat.pow 2 (8 * (3 - i))) 0 + last
        = address := by
  cases hreverse : numbers.reverse with
  | nil => simp [ipv4OfNumbers, hreverse] at h
  | cons last before =>
    rw [ipv4OfNumbers_eq hreverse] at h
    split at h
    · exact absurd h (by simp)
    · next hok =>
      have hnot := Bool.eq_false_iff.2 hok
      simp only [Bool.or_eq_false_iff, decide_eq_false_iff_not, Nat.not_lt, ge_iff_le, Nat.not_le,
        gt_iff_lt, List.any_eq_false, decide_eq_true_eq] at hnot
      obtain ⟨⟨hcount, hlast⟩, hbefore⟩ := hnot
      exact ⟨last, before, hcount, hlast, hbefore, Option.some.inj h⟩

/-- Bytes fill the bits between the first place and what is left behind them. -/
theorem foldl_bytes_le {bytes : List Nat} {i acc : Nat} (hbytes : ∀ n ∈ bytes, n ≤ 255)
    (hplaces : i + bytes.length ≤ 4) :
    (bytes.zipIdx i).foldl (fun acc (n, i) => acc + n * Nat.pow 2 (8 * (3 - i))) acc
        + Nat.pow 2 (32 - 8 * (i + bytes.length))
      ≤ acc + Nat.pow 2 (32 - 8 * i) := by
  induction bytes generalizing i acc with
  | nil => simp
  | cons n rest ih =>
    have hn : n ≤ 255 := hbytes n List.mem_cons_self
    rw [List.length_cons] at hplaces ⊢
    have hrest := @ih (i + 1) (acc + n * Nat.pow 2 (8 * (3 - i)))
      (fun m hm => hbytes m (List.mem_cons_of_mem n hm)) (by omega)
    have hbits : 32 - 8 * i = 8 * (3 - i) + 8 := by omega
    have hnext : 32 - 8 * (i + 1) = 8 * (3 - i) := by omega
    have hcount : i + (rest.length + 1) = i + 1 + rest.length := by omega
    rw [List.zipIdx_cons, List.foldl_cons, hcount]
    rw [hnext] at hrest
    calc _ ≤ acc + n * Nat.pow 2 (8 * (3 - i)) + Nat.pow 2 (8 * (3 - i)) := hrest
      _ = acc + (n + 1) * Nat.pow 2 (8 * (3 - i)) := by rw [Nat.add_assoc, ← Nat.succ_mul]
      _ ≤ acc + 256 * Nat.pow 2 (8 * (3 - i)) :=
        Nat.add_le_add_left (Nat.mul_le_mul_right _ (by omega)) _
      _ = acc + Nat.pow 2 (32 - 8 * i) := by
        rw [hbits, Nat.pow_eq, Nat.pow_eq, Nat.pow_add, Nat.mul_comm]

theorem ipv4OfNumbers_lt {numbers : List Nat} {address : Nat}
    (h : ipv4OfNumbers numbers = some address) : address < 4294967296 := by
  obtain ⟨last, before, hcount, hlast, hbefore, haddress⟩ := ipv4OfNumbers_eq_some h
  have hbytes := @foldl_bytes_le before.reverse 0 0
    (fun n hn => hbefore n (List.mem_reverse.1 hn)) (by rw [List.length_reverse]; omega)
  rw [List.length_reverse, Nat.zero_add, Nat.zero_add] at hbytes
  rw [← haddress]
  exact Nat.lt_of_lt_of_le (Nat.add_lt_add_left hlast _) hbytes

theorem ipv4?_lt {name : Text} {address : Nat} (h : ipv4? name = some address) :
    address < 4294967296 := by
  unfold ipv4? at h
  obtain ⟨numbers, -, hnumbers⟩ := Option.bind_eq_some_iff.1 h
  exact ipv4OfNumbers_lt hnumbers

def ipv4Numbers (address : Nat) : List Nat :=
  [address / 16777216, address / 65536 % 256, address / 256 % 256, address % 256]

theorem ipv4Numbers_lt {address : Nat} (h : address < 4294967296) :
    ∀ n ∈ ipv4Numbers address, n < 256 := by
  intro n hn
  simp only [ipv4Numbers, List.mem_cons, List.not_mem_nil, or_false] at hn
  omega

theorem toText_ipv4 (address : Nat) :
    (Host.ipv4 address).toText = join ['.'] ((ipv4Numbers address).map Text.ofNat) := rfl

theorem isDigit_of_mem_ofNat {n : Nat} {c : Char} (h : c ∈ Text.ofNat n) : c.isDigit :=
  Nat.isDigit_of_mem_toDigits (by decide) (by decide) h

theorem dotParts_ipv4 (address : Nat) :
    dotParts (Host.ipv4 address).toText = (ipv4Numbers address).map Text.ofNat := by
  have hsplit : split '.' (Host.ipv4 address).toText = (ipv4Numbers address).map Text.ofNat := by
    rw [toText_ipv4]
    refine split_join (by simp [ipv4Numbers]) fun part hpart hmem => ?_
    obtain ⟨n, -, rfl⟩ := List.mem_map.1 hpart
    exact absurd (isDigit_of_mem_ofNat hmem) (by decide)
  have hlast : Text.ofNat (address % 256) ≠ [] := Nat.toDigits_ne_nil
  unfold dotParts
  rw [hsplit]
  simp [ipv4Numbers, hlast]

theorem ipv4?_toText {address : Nat} (h : address < 4294967296) :
    ipv4? (Host.ipv4 address).toText = some address := by
  have hlt := ipv4Numbers_lt h
  have hparts : ∀ numbers : List Nat, (∀ n ∈ numbers, n < 256) →
      ((numbers.map Text.ofNat).mapM fun part => do
        let n ← ipv4Number part
        if n < Nat.pow 2 32 then some n else none) = some numbers := by
    intro numbers
    induction numbers with
    | nil => exact fun _ => rfl
    | cons n rest ih =>
      intro hnumbers
      have hn := hnumbers n List.mem_cons_self
      have hsmall : n < Nat.pow 2 32 := Nat.lt_trans hn (by decide)
      rw [List.map_cons, List.mapM_cons, ipv4Number_ofNat n,
        ih fun m hm => hnumbers m (List.mem_cons_of_mem n hm)]
      simp only [Option.bind_eq_bind, Option.bind_some, hsmall, if_true, Option.pure_def]
  -- the four numbers are the bytes of the address
  have hvalue : ipv4OfNumbers (ipv4Numbers address) = some address := by
    simp [ipv4OfNumbers, ipv4Numbers]
    omega
  unfold ipv4?
  rw [dotParts_ipv4, hparts _ hlt]
  exact hvalue

theorem endsInNumber_ipv4 (address : Nat) : endsInNumber (Host.ipv4 address).toText := by
  have hlast : ((ipv4Numbers address).map Text.ofNat).getLast?
      = some (Text.ofNat (address % 256)) := rfl
  have hempty : (Text.ofNat (address % 256)).isEmpty = false :=
    List.isEmpty_eq_false_iff.2 Nat.toDigits_ne_nil
  have hdigits : (Text.ofNat (address % 256)).all Char.isDigit :=
    List.all_eq_true.2 fun c hc => isDigit_of_mem_ofNat hc
  unfold endsInNumber
  rw [dotParts_ipv4, hlast]
  simp [hempty, hdigits]

theorem isKept_of_digit {c : Char} (h : c = '.' ∨ c.isDigit) :
    isForbidden c = false ∧ c.toLower = c := by
  have hascii : c.toNat < 128 := by
    rcases h with rfl | hc
    · decide
    · simp only [Char.isDigit, Bool.and_eq_true, decide_eq_true_eq] at hc
      have : c.toNat ≤ 57 := UInt32.le_iff_toNat_le.1 hc.2
      omega
  exact of_ascii (p := fun c => c = '.' ∨ c.isDigit → isForbidden c = false ∧ c.toLower = c)
    (by decide) hascii h

theorem isKept_of_mem_ipv4 {address : Nat} {c : Char} (h : c ∈ (Host.ipv4 address).toText) :
    isForbidden c = false ∧ c.toLower = c := by
  apply isKept_of_digit
  rw [toText_ipv4] at h
  rcases mem_of_mem_join h with rfl | ⟨part, hpart, hc⟩
  · exact .inl rfl
  · obtain ⟨n, -, rfl⟩ := List.mem_map.1 hpart
    exact .inr (isDigit_of_mem_ofNat hc)

theorem ofSpecial_ipv4 {address : Nat} (h : address < 4294967296) :
    ofSpecial (Host.ipv4 address).toText = .ok (.ipv4 address) := by
  have hne : (Host.ipv4 address).toText ≠ [] := by
    intro hnil
    have := endsInNumber_ipv4 address
    rw [hnil] at this
    exact absurd this (by decide)
  have hlower : lowerAscii (Host.ipv4 address).toText = (Host.ipv4 address).toText := by
    unfold lowerAscii
    exact (List.map_congr_left fun c hc => (isKept_of_mem_ipv4 hc).2).trans (List.map_id _)
  rw [ofSpecial_name hne (fun c hc => (isKept_of_mem_ipv4 hc).1) hlower,
    if_pos (endsInNumber_ipv4 address), ipv4?_toText h]

/-! ## Hosts -/

theorem ofSpecial_isNormal {text : Text} {host : Host} (h : ofSpecial text = .ok host) :
    host.IsNormal := by
  rcases ofSpecial_cases h with
    ⟨pieces, inside, rfl, hinside⟩ | ⟨name, hne, hforbidden, hlower, hname⟩
  · exact ipv6?_isNormal hinside
  · rcases hname with ⟨hnumber, rfl⟩ | ⟨address, rfl, haddress⟩
    · exact ⟨hne, hforbidden, hlower, hnumber⟩
    · exact ipv4?_lt haddress

theorem bracketed_toText {pieces : List Nat} (h : (Host.ipv6 pieces).IsNormal) :
    bracketed (Host.ipv6 pieces).toText = .ok (.ipv6 pieces) := by
  have hinside : ((Host.ipv6 pieces).toText.drop 1).dropLast = ipv6Text pieces := by
    show (ipv6Text pieces ++ [']']).dropLast = _
    exact List.dropLast_concat
  have hlast : (Host.ipv6 pieces).toText.getLast? = some ']' := by
    show ('[' :: (ipv6Text pieces ++ [']'])).getLast? = _
    rw [← List.cons_append, List.getLast?_concat]
  unfold bracketed
  rw [if_pos hlast, hinside, ipv6?_ipv6Text h.1 h.2]

theorem ofSpecial_toText {host : Host} (h : host.IsNormal) : ofSpecial host.toText = .ok host := by
  cases host with
  | domain name =>
    obtain ⟨hne, hforbidden, hlower, hnumber⟩ := h
    show ofSpecial name = _
    rw [ofSpecial_name hne hforbidden hlower, hnumber]
    rfl
  | ipv4 address => exact ofSpecial_ipv4 h
  | ipv6 pieces =>
    unfold ofSpecial
    rw [if_pos (show (Host.ipv6 pieces).toText.head? = some '[' from rfl)]
    exact bracketed_toText h

theorem toText_ne_nil {host : Host} (h : host.IsNormal) : host.toText ≠ [] := by
  intro hnil
  have hread := ofSpecial_toText h
  have hempty : ofSpecial [] = .error .emptyHost := rfl
  rw [hnil, hempty] at hread
  exact absurd hread (by simp)

/-- A character of the text of a host: none that ends an authority or stands behind a user. -/
def isHostChar (c : Char) : Bool := decide (32 < c.toNat) && !"/\\?#@".toList.contains c

theorem lt_of_isHostChar {c : Char} (h : isHostChar c) : 32 < c.toNat :=
  of_decide_eq_true (Bool.and_eq_true_iff.1 h).1

theorem isHostChar_of_not_isForbidden {c : Char} (h : isForbidden c = false) : isHostChar c := by
  obtain ⟨hlow, hhigh, -, -⟩ := lt_of_not_isForbidden h
  exact of_ascii (p := fun c => isForbidden c = false → isHostChar c) (by decide) (by omega) h

theorem isHostChar_of_mem_toText {host : Host} (h : host.IsNormal) :
    ∀ c ∈ host.toText, isHostChar c := by
  intro c hc
  cases host with
  | domain name => exact isHostChar_of_not_isForbidden (h.2.1 c hc)
  | ipv4 address => exact isHostChar_of_not_isForbidden (isKept_of_mem_ipv4 hc).1
  | ipv6 pieces =>
    have hall : ∀ d ∈ "[:0123456789abcdef]".toList, isHostChar d := by decide
    apply hall
    rcases List.mem_cons.1 hc with rfl | hc
    · decide
    · rcases List.mem_append.1 hc with hc | hc
      · have hhex : ∀ d ∈ ":0123456789abcdef".toList, d ∈ "[:0123456789abcdef]".toList := by decide
        exact hhex c (isHex_of_mem_ipv6Text hc)
      · rw [List.mem_singleton.1 hc]
        decide

end Host

end HubRules
