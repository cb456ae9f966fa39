import HubRules.Proofs.Url.Encoding

/-!
# Host names

Labels of lower-case letters with dots between them are the name of a host: they are read as they
stand, and never as the number of an address (`isNormal_name`).
-/

namespace HubRules

open Text

namespace Host

/-- The labels of a host name: at least one, each of one or more lower-case letters. -/
structure IsName (labels : List Text) : Prop where
  nonempty : labels ≠ []
  letters : ∀ label ∈ labels, label ≠ [] ∧ ∀ c ∈ label, c.isLower

variable {labels : List Text}

theorem of_isLower {p : Char → Prop}
    (hall : ∀ n < 128, (Char.ofNat n).isLower → p (Char.ofNat n)) {c : Char}
    (h : c.isLower) : p c := by
  have halpha : c.isAlpha := by
    unfold Char.isAlpha
    rw [h, Bool.or_true]
  exact of_ascii (p := fun c => c.isLower → p c) hall (Url.lt_of_isAlpha halpha) h

theorem dotParts_name (h : IsName labels) : dotParts (Text.join ['.'] labels) = labels := by
  have hdot : ∀ label ∈ labels, '.' ∉ label := by
    intro label hlabel hmem
    exact absurd ((h.letters label hlabel).2 _ hmem) (by decide)
  have hlast : (labels.getLast? == some []) = false := by
    rw [beq_eq_false_iff_ne]
    intro heq
    exact (h.letters [] (List.mem_of_getLast? heq)).1 rfl
  unfold dotParts
  simp only [split_join h.nonempty hdot, hlast, Bool.and_false, Bool.false_eq_true, if_false]

theorem IsName.of_mem {p : Char → Prop} (h : IsName labels) (hdot : p '.')
    (hall : ∀ n < 128, (Char.ofNat n).isLower → p (Char.ofNat n)) :
    ∀ c ∈ Text.join ['.'] labels, p c := by
  intro c hc
  rcases mem_of_mem_join hc with rfl | ⟨label, hlabel, hc⟩
  · exact hdot
  · exact of_isLower hall ((h.letters label hlabel).2 c hc)

theorem ipv4Number_of_isLower {c : Char} {cs : Text} (h : c.isLower) :
    c.isDigit = false ∧ ipv4Number (c :: cs) = none := by
  have hletter : c.isDigit = false ∧ c ≠ '0' ∧ takeDigit 10 (some 0) c = none :=
    of_isLower (p := fun c => c.isDigit = false ∧ c ≠ '0' ∧ takeDigit 10 (some 0) c = none)
      (by decide) h
  obtain ⟨hdigit, hzero, htake⟩ := hletter
  refine ⟨hdigit, ?_⟩
  rw [ipv4Number_of_ne hzero, numberOfBase_eq, List.foldl_cons, htake, foldl_takeDigit_none]

theorem endsInNumber_name (h : IsName labels) :
    endsInNumber (Text.join ['.'] labels) = false := by
  unfold endsInNumber
  rw [dotParts_name h]
  split
  · rfl
  · next last hlast =>
    obtain ⟨hne, hletters⟩ := h.letters last (List.mem_of_getLast? hlast)
    obtain ⟨c, cs, rfl⟩ := List.exists_cons_of_ne_nil hne
    obtain ⟨hdigit, hnumber⟩ := ipv4Number_of_isLower (hletters c List.mem_cons_self)
    rw [hnumber, List.all_cons, hdigit]
    rfl

/-- A name in lower-case letters is no number, and so stays as it is. -/
theorem isNormal_name (h : IsName labels) : (Host.domain (Text.join ['.'] labels)).IsNormal := by
  have hchars : ∀ c ∈ Text.join ['.'] labels, isForbidden c = false ∧ c.toLower = c :=
    h.of_mem (by decide) (by decide)
  refine ⟨fun hnil => ?_, fun c hc => (hchars c hc).1, ?_, endsInNumber_name h⟩
  · have hparts := dotParts_name h
    rw [hnil] at hparts
    have hempty : [] ∈ labels := by
      rw [← hparts]
      decide
    exact (h.letters [] hempty).1 rfl
  · exact (List.map_congr_left fun c hc => (hchars c hc).2).trans (List.map_id _)

theorem isNormal_of_isLower {name : Text} (hne : name ≠ []) (h : ∀ c ∈ name, c.isLower) :
    (Host.domain name).IsNormal := by
  have hname : IsName [name] := ⟨List.cons_ne_nil _ _, List.forall_mem_singleton.2 ⟨hne, h⟩⟩
  exact isNormal_name hname

end Host

end HubRules
