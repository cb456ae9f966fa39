import Mathlib.Algebra.Group.Nat.Defs
import HubRules.Url.Host

/-!
# Numerals in hosts

A number written in a base is read back (`numberOfBase_toDigits`), and what is read from few
digits is small (`numberOfBase_lt`).
-/

namespace HubRules.Host

def takeDigit (base : Nat) (acc : Option Nat) (c : Char) : Option Nat := do
  let n ← acc
  let d ← Json.Reader.hexValue? c
  if d < base then some (n * base + d) else none

theorem numberOfBase_eq (base : Nat) (text : Text) :
    numberOfBase base text = text.foldl (takeDigit base) (some 0) := rfl

theorem hexValue?_digitChar {n : Nat} (h : n < 16) :
    Json.Reader.hexValue? (Nat.digitChar n) = some n := by
  have hall : ∀ m < 16, Json.Reader.hexValue? (Nat.digitChar m) = some m := by decide
  exact hall n h

theorem takeDigit_digitChar {base n d : Nat} (hbase : base ≤ 16) (hd : d < base) :
    takeDigit base (some n) (Nat.digitChar d) = some (n * base + d) := by
  have hhex : Json.Reader.hexValue? (Nat.digitChar d) = some d := hexValue?_digitChar (by omega)
  simp [takeDigit, hhex, hd]

theorem numberOfBase_toDigits {base : Nat} (hbase : 1 < base) (hhex : base ≤ 16) (n : Nat) :
    numberOfBase base (Nat.toDigits base n) = some n := by
  induction n using Nat.strongRecOn with
  | _ n ih =>
    rw [Nat.toDigits_eq_if hbase]
    split
    · next h =>
      rw [numberOfBase_eq, List.foldl_cons, takeDigit_digitChar hhex h]
      simp
    · next h =>
      have hlt : n / base < n := Nat.div_lt_self (by omega) hbase
      have hmod : n % base < base := Nat.mod_lt n (by omega)
      have hdiv := ih (n / base) hlt
      rw [numberOfBase_eq] at hdiv ⊢
      rw [List.foldl_append, hdiv, List.foldl_cons, takeDigit_digitChar hhex hmod]
      have heq := Nat.div_add_mod n base
      rw [Nat.mul_comm] at heq
      rw [heq, List.foldl_nil]

theorem exists_of_mem_toDigits {base n : Nat} (hbase : 1 < base) {c : Char}
    (h : c ∈ Nat.toDigits base n) : ∃ d < base, c = Nat.digitChar d := by
  induction n using Nat.strongRecOn with
  | _ n ih =>
    rw [Nat.toDigits_eq_if hbase] at h
    split at h
    · next hn => exact ⟨n, hn, List.mem_singleton.1 h⟩
    · next hn =>
      rcases List.mem_append.1 h with h | h
      · exact ih (n / base) (Nat.div_lt_self (by omega) hbase) h
      · exact ⟨n % base, Nat.mod_lt n (by omega), List.mem_singleton.1 h⟩

theorem head?_toDigits_ne {base n : Nat} (hbase : 1 < base) (hhex : base ≤ 16) (hn : n ≠ 0) :
    (Nat.toDigits base n).head? ≠ some '0' := by
  induction n using Nat.strongRecOn with
  | _ n ih =>
    rw [Nat.toDigits_eq_if hbase]
    split
    · next hlt =>
      have hall : ∀ d < 16, d ≠ 0 → Nat.digitChar d ≠ '0' := by decide
      intro hhead
      exact hall n (by omega) hn (Option.some.inj hhead)
    · next hle =>
      have hdiv : n / base ≠ 0 := Nat.ne_of_gt (Nat.div_pos (by omega) (by omega))
      intro hhead
      rw [List.head?_append] at hhead
      rcases Option.or_eq_some_iff.1 hhead with hhead | ⟨hnil, -⟩
      · exact ih (n / base) (Nat.div_lt_self (by omega) hbase) hdiv hhead
      · exact Nat.toDigits_ne_nil (List.head?_eq_none_iff.1 hnil)

theorem foldl_takeDigit_none (base : Nat) (text : Text) :
    text.foldl (takeDigit base) none = none := by
  induction text with
  | nil => rfl
  | cons c cs ih =>
    rw [List.foldl_cons]
    exact ih

theorem takeDigit_eq_some {base n m : Nat} {c : Char} (h : takeDigit base (some n) c = some m) :
    ∃ d < base, m = n * base + d := by
  unfold takeDigit at h
  cases hd : Json.Reader.hexValue? c with
  | none => simp [hd] at h
  | some d =>
    simp only [hd, Option.bind_eq_bind, Option.bind_some] at h
    split at h
    · next hlt => exact ⟨d, hlt, (Option.some.inj h).symm⟩
    · exact absurd h (by simp)

/-- A number is smaller than its base to the power of its count of digits. -/
theorem numberOfBase_lt {base n : Nat} {text : Text} (h : numberOfBase base text = some n) :
    n < base ^ text.length := by
  -- the digits that are read already stand for `acc`
  have hfrom : ∀ acc, text.foldl (takeDigit base) (some acc) = some n →
      n < (acc + 1) * base ^ text.length := by
    clear h
    induction text with
    | nil =>
      intro acc h
      have : acc = n := Option.some.inj h
      simp
      omega
    | cons c cs ih =>
      intro acc h
      rw [List.foldl_cons] at h
      cases hstep : takeDigit base (some acc) c with
      | none =>
        rw [hstep, foldl_takeDigit_none] at h
        exact absurd h (by simp)
      | some next =>
        rw [hstep] at h
        obtain ⟨d, hd, hnext⟩ := takeDigit_eq_some hstep
        have hle : next + 1 ≤ (acc + 1) * base := by
          rw [hnext, Nat.succ_mul]
          omega
        calc n < (next + 1) * base ^ cs.length := ih next h
          _ ≤ (acc + 1) * base * base ^ cs.length := Nat.mul_le_mul_right _ hle
          _ = (acc + 1) * base ^ (c :: cs).length := by
            rw [List.length_cons, Nat.pow_succ, Nat.mul_assoc, Nat.mul_comm base]
  have := hfrom 0 (by rw [← numberOfBase_eq]; exact h)
  omega

end HubRules.Host
