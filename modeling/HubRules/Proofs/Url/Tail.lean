import HubRules.Proofs.Url.PathText

/-!
# Queries and fragments

Query and fragment are encoded as they are read (`readTail_isNormal`), and are read back from
their text (`readTail_tailText`).
-/

namespace HubRules.Url

open Text

variable {special : Bool}

/-- A query and a fragment that stay as they are. -/
structure IsNormalTail (special : Bool) (query fragment : Option Text) : Prop where
  query : ∀ text ∈ query, IsPlain (inQuery special) text
  fragment : ∀ text ∈ fragment, IsPlain inFragment text

def tailText (query fragment : Option Text) : Text :=
  query.elim [] ('?' :: ·) ++ fragment.elim [] ('#' :: ·)

theorem isTail_tailText (query fragment : Option Text) : IsTail (tailText query fragment) := by
  unfold IsTail tailText
  cases query <;> cases fragment <;> simp

theorem eq_none_of_tailText {query fragment : Option Text} (h : tailText query fragment = []) :
    query = none ∧ fragment = none := by
  unfold tailText at h
  cases query <;> cases fragment <;> simp_all

theorem lt_of_mem_tailText {query fragment : Option Text}
    (h : IsNormalTail special query fragment) : ∀ c ∈ tailText query fragment, 32 < c.toNat := by
  intro c hc
  unfold tailText at hc
  rcases List.mem_append.1 hc with hc | hc
  · cases query with
    | none => exact absurd hc List.not_mem_nil
    | some text =>
      rcases List.mem_cons.1 hc with rfl | hc
      · decide
      · exact lt_of_plain (by cases special <;> rfl) (h.query text rfl c hc)
  · cases fragment with
    | none => exact absurd hc List.not_mem_nil
    | some text =>
      rcases List.mem_cons.1 hc with rfl | hc
      · decide
      · exact lt_of_plain rfl (h.fragment text rfl c hc)

theorem readFragment_isPlain (text : Text) : IsPlain inFragment (readFragment text) :=
  isPlain_percentEncode (by unfold IsPlain; decide) text

theorem readTail_isNormal (special : Bool) (text : Text) :
    IsNormalTail special (readTail special text).1 (readTail special text).2 := by
  have hsigns : IsPlain (inQuery special) byteSigns := by
    unfold IsPlain
    cases special <;> decide
  unfold readTail
  split
  · exact ⟨by simp, by simpa using readFragment_isPlain _⟩
  · dsimp only
    split
    · exact ⟨by simpa using isPlain_percentEncode hsigns _, by simpa using readFragment_isPlain _⟩
    · exact ⟨by simpa using isPlain_percentEncode hsigns _, by simp⟩
  · exact ⟨by simp, by simp⟩

theorem eq_nil_of_readTail {text : Text} (h : IsTail text)
    (hread : (readTail special text).1 = none ∧ (readTail special text).2 = none) : text = [] := by
  cases text with
  | nil => rfl
  | cons c cs =>
    rcases h c rfl with rfl | rfl
    · have hquery : (readTail special ('?' :: cs)).1.isSome := by
        simp only [readTail]
        split <;> rfl
      rw [hread.1] at hquery
      cases hquery
    · cases hread.2

theorem readFragment_of_isPlain {text : Text} (h : IsPlain inFragment text) :
    readFragment text = text :=
  percentEncode_of_isPlain h

theorem readTail_tailText {query fragment : Option Text} (h : IsNormalTail special query fragment) :
    readTail special (tailText query fragment) = (query, fragment) := by
  cases query with
  | none =>
    cases fragment with
    | none => rfl
    | some fragment =>
      show (none, some (readFragment fragment)) = _
      rw [readFragment_of_isPlain (h.fragment _ rfl)]
  | some query =>
    have hquery := h.query query rfl
    have hinside : ∀ c ∈ query, (c != '#') = true := fun c hc =>
      bne_iff_ne.2 (ne_of_test (hquery c hc) (by cases special <;> rfl))
    cases fragment with
    | none =>
      show readTail special ('?' :: (query ++ [])) = _
      unfold readTail
      simp only [List.append_nil, List.takeWhile_eq_self_iff.2 hinside,
        List.dropWhile_eq_nil_iff.2 hinside, percentEncode_of_isPlain hquery]
    | some fragment =>
      have hstop : ∀ c ∈ ('#' :: fragment).head?, (c != '#') = false := by simp
      show readTail special ('?' :: (query ++ '#' :: fragment)) = _
      unfold readTail
      simp only [takeWhile_append_stop hinside hstop, dropWhile_append_stop hinside hstop,
        percentEncode_of_isPlain hquery, readFragment_of_isPlain (h.fragment _ rfl)]

end HubRules.Url
