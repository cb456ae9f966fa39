import HubRules.Proofs.Routing.Separators

/-!
# Lookups in a text

httpd reads `$` with an opening brace as the start of a lookup, and what follows up to a colon as
the name of a map (`LooksUp`). In a text without opening braces no lookup starts before its
references are written for httpd; then one starts at every reference with an entry, and no other
one (`exists_entry_of_looksUp`).
-/

namespace HubRules.Reference

open Text

/-- Whether a lookup that is followed by a text starts in another one. -/
def Starts (text behind : Text) : Prop := ∃ before, text = before ++ '$' :: '\x7b' :: behind

/-- Whether httpd looks something up in the map of a name. -/
def LooksUp (text name : Text) : Prop := ':' ∉ name ∧ ∃ rest, Starts text (name ++ ':' :: rest)

variable {text behind : Text}

theorem Starts.mem (h : Starts text behind) : '$' ∈ text ∧ '\x7b' ∈ text := by
  obtain ⟨before, rfl⟩ := h
  simp

/-- A lookup that starts in one of two texts, or between them. -/
theorem starts_append (first : Text) {second : Text} (h : Starts (first ++ second) behind) :
    (∃ inner, Starts first inner ∧ behind = inner ++ second)
      ∨ (first.getLast? = some '$' ∧ second.head? = some '\x7b') ∨ Starts second behind := by
  obtain ⟨before, heq⟩ := h
  rcases List.append_eq_append_iff.1 heq with ⟨more, rfl, hsecond⟩ | ⟨more, rfl, hbehind⟩
  · exact .inr (.inr ⟨more, hsecond⟩)
  · cases more with
    | nil => exact .inr (.inr ⟨[], hbehind.symm⟩)
    | cons c more =>
      obtain ⟨rfl, hmore⟩ := List.cons.inj hbehind
      cases more with
      | nil => exact .inr (.inl ⟨by simp, (congrArg List.head? hmore).symm⟩)
      | cons d inner =>
        obtain ⟨rfl, hinner⟩ := List.cons.inj hmore
        exact .inl ⟨inner, ⟨before, rfl⟩, hinner⟩

/-- Something that no lookup can start with or before: it begins with no brace and does not end
with `$`. -/
def IsSealed (written : Text) : Prop :=
  (∃ c more, written = c :: more ∧ c ≠ '\x7b') ∧ written.getLast? ≠ some '$'

/-- Lookups start in what is written for tokens only, if none starts in the characters and what
is written cannot be a part of another one. -/
theorem exists_token_of_starts {write : Text → Text} {pieces : List (Piece Text)}
    (hchar : ∀ before after, pieces ≠ before ++ .char '$' :: .char '\x7b' :: after)
    (htoken : ∀ name, .token name ∈ pieces → IsSealed (write name))
    (h : Starts (ofPieces write pieces) behind) :
    ∃ name, .token name ∈ pieces ∧ ∃ inner rest, Starts (write name) inner
      ∧ behind = inner ++ rest := by
  induction pieces with
  | nil => exact absurd h.mem.1 List.not_mem_nil
  | cons piece pieces ih =>
    have htoken' := fun name hname => htoken name (List.mem_cons_of_mem piece hname)
    have hlater : Starts (ofPieces write pieces) behind →
        ∃ name, .token name ∈ piece :: pieces ∧ ∃ inner rest, Starts (write name) inner
          ∧ behind = inner ++ rest := by
      intro hrest
      obtain ⟨name, hname, hstarts⟩ := ih
        (fun before after heq => hchar (piece :: before) after (congrArg (piece :: ·) heq))
        htoken' hrest
      exact ⟨name, List.mem_cons_of_mem piece hname, hstarts⟩
    cases piece with
    | char c =>
      rcases starts_append [c] h with ⟨inner, hinner, -⟩ | ⟨hlast, hhead⟩ | hrest
      · have hdollar := List.mem_singleton.1 hinner.mem.1
        have hbrace := List.mem_singleton.1 hinner.mem.2
        rw [← hdollar] at hbrace
        exact absurd hbrace (by decide)
      · -- a character `$` with a brace behind it, which no token begins with
        obtain rfl : c = '$' := Option.some.inj hlast
        cases pieces with
        | nil => cases hhead
        | cons next after =>
          cases next with
          | char d =>
            obtain rfl : d = '\x7b' := Option.some.inj hhead
            exact absurd rfl (hchar [] after)
          | token name =>
            obtain ⟨d, more, hwrite, hd⟩ := (htoken' name List.mem_cons_self).1
            have hfirst : (write name ++ ofPieces write after).head? = some '\x7b' := hhead
            rw [hwrite] at hfirst
            exact absurd (Option.some.inj hfirst) hd
      · exact hlater hrest
    | token name =>
      rcases starts_append _ h with ⟨inner, hinner, rfl⟩ | ⟨hlast, -⟩ | hrest
      · exact ⟨name, List.mem_cons_self, inner, _, hinner, rfl⟩
      · exact absurd hlast (htoken name List.mem_cons_self).2
      · exact hlater hrest

/-! ## Variables -/

def nameChars : Text := lowerNameChars ++ lowerNameChars.map Char.toUpper

theorem mem_nameChars {c : Char} (h : isNameChar c) : c ∈ nameChars := by
  by_cases hlower : isLowerNameChar c
  · exact List.mem_append_left _ (mem_lowerNameChars hlower)
  · have hupper : c.isUpper = true := by
      unfold isNameChar Char.isAlpha at h
      unfold isLowerNameChar at hlower
      grind
    have hn : 65 ≤ c.toNat ∧ c.toNat ≤ 90 := by
      have hletter : c.val ≥ 'A'.val ∧ c.val ≤ 'Z'.val := of_decide_eq_true hupper
      simpa [UInt32.le_iff_toNat_le, ← Char.toNat_val] using hletter
    have hall : ∀ n < 91, 65 ≤ n → Char.ofNat n ∈ nameChars := by decide
    rw [← Char.ofNat_toNat c]
    exact hall c.toNat (by omega) hn.1

theorem dollar_not_mem_httpdVariable {name : Text} (h : ∀ c ∈ name, isNameChar c) :
    '$' ∉ httpdVariable name := by
  have hall : ∀ c ∈ nameChars, '$' ∉ upperChar c := by decide +kernel
  have hname : '$' ∉ toUpper name := by
    intro hmem
    obtain ⟨c, hc, hupper⟩ := List.mem_flatMap.1 hmem
    exact hall c (mem_nameChars (h c hc)) hupper
  unfold httpdVariable
  simp only [List.mem_append, hname, or_false]
  decide

theorem isSealed_httpdVariable (name : Text) : IsSealed (httpdVariable name) := by
  have hlast : (httpdVariable name).getLast? ≠ some '$' := by
    unfold httpdVariable
    rw [List.getLast?_concat]
    decide
  exact ⟨⟨'%', _, rfl, by decide⟩, hlast⟩

theorem pieces_ne_of_not_starts (h : ∀ behind, ¬Starts text behind)
    (before after : List (Piece Text)) :
    scan named? text ≠ before ++ .char '$' :: .char '\x7b' :: after := by
  intro heq
  refine h (ofPieces ('$' :: ·) after) ⟨ofPieces ('$' :: ·) before, ?_⟩
  rw [← ofPieces_scan_named text, heq, ofPieces_append]
  rfl

/-- Where no lookup starts in a text, none starts in it with its variables. -/
theorem not_starts_toHttpdVariables (h : ∀ behind, ¬Starts text behind) (behind : Text) :
    ¬Starts (toHttpdVariables text) behind := by
  intro hstarts
  obtain ⟨name, hname, inner, -, hinner, -⟩ := exists_token_of_starts (pieces_ne_of_not_starts h)
    (fun name _ => isSealed_httpdVariable name) hstarts
  exact dollar_not_mem_httpdVariable (isNameChar_of_token_mem hname).2 hinner.mem.1

/-! ## Lookups of a table -/

/-- A lookup that starts in a text with a second one, in which none starts, behind a separator. -/
theorem starts_of_starts_append {first second : Text} (sep : Char) (hsep : sep ≠ '$')
    (hsep' : sep ≠ '\x7b') (hsecond : ∀ behind, ¬Starts second behind)
    (h : Starts (first ++ sep :: second) behind) :
    ∃ inner, Starts first inner ∧ behind = inner ++ sep :: second := by
  rcases starts_append first h with hfirst | ⟨-, hhead⟩ | hrest
  · exact hfirst
  · exact absurd (Option.some.inj hhead) hsep'
  · rcases starts_append [sep] hrest with ⟨_, hinner, -⟩ | ⟨hlast, -⟩ | hrest
    · exact absurd (List.mem_singleton.1 hinner.mem.1).symm hsep
    · exact absurd (Option.some.inj hlast) hsep
    · exact absurd hrest (hsecond behind)

theorem dollar_not_mem_mapName {table : RoutingTable} {name : Text}
    (hname : ∀ c ∈ name, isNameChar c) : '$' ∉ (table.mapName (String.ofList name)).toList := by
  have hgroup : '$' ∉ table.group.name.toList := by cases table.group <;> decide
  have hdollar : '$' ∉ name := fun hmem => absurd (hname '$' hmem) (by decide)
  simpa [RoutingTable.mapName, hgroup] using hdollar

/-- The one lookup of an entry names the map of the entry. -/
theorem eq_of_starts_httpdLookup {table : RoutingTable} {name : Text} {mapping : Mapping}
    (hname : ∀ c ∈ name, isNameChar c)
    (hclosed : ∀ written ∈ mapping.texts, ∀ behind, ¬Starts written behind)
    (h : Starts (httpdLookup table name mapping) behind) :
    ∃ rest, behind = (table.mapName (String.ofList name)).toList ++ ':' :: rest := by
  have hinput := not_starts_toHttpdVariables (hclosed _ List.mem_cons_self)
  have hdefault : ∀ behind,
      ¬Starts (mapping.default?.elim [] fun d => toHttpdVariables d.toList) behind := by
    cases hd : mapping.default? with
    | none => exact fun behind hstarts => absurd hstarts.mem.1 List.not_mem_nil
    | some d => exact not_starts_toHttpdVariables (hclosed d.toList (by simp [Mapping.texts, hd]))
  unfold httpdLookup at h
  obtain ⟨_, hfirst, rfl⟩ := starts_of_starts_append '\x7d' (by decide) (by decide)
    (fun behind hstarts => absurd hstarts.mem.1 List.not_mem_nil) h
  obtain ⟨_, hsecond, rfl⟩ := starts_of_starts_append '|' (by decide) (by decide)
    hdefault hfirst
  obtain ⟨inner, ⟨before, heq⟩, rfl⟩ := starts_of_starts_append ':' (by decide) (by decide)
    hinput hsecond
  -- what is left begins with the lookup, and holds no other one
  cases before with
  | nil =>
    obtain rfl : (table.mapName (String.ofList name)).toList = inner := by simpa using heq
    simp only [List.append_assoc, List.cons_append]
    exact ⟨_, rfl⟩
  | cons c before =>
    have htail : '\x7b' :: (table.mapName (String.ofList name)).toList
        = before ++ '$' :: '\x7b' :: inner := (List.cons.inj heq).2
    have hmem : '$' ∈ '\x7b' :: (table.mapName (String.ofList name)).toList := by
      rw [htail]
      exact List.mem_append_right before List.mem_cons_self
    rcases List.mem_cons.1 hmem with hbrace | hmem
    · exact absurd hbrace (by decide)
    · exact absurd hmem (dollar_not_mem_mapName hname)

/-- A table in whose inputs and defaults no lookup starts. -/
def IsClosed (table : RoutingTable) : Prop :=
  ∀ entry ∈ table.entries, ∀ written ∈ entry.2.texts, ∀ behind, ¬Starts written behind

theorem isSealed_httpdReference (table : RoutingTable) (name : Text) :
    IsSealed (httpdReference table name) := by
  obtain ⟨c, more, hwrite, hc⟩ := httpdReference_eq_cons table name
  refine ⟨⟨c, more, hwrite, by rcases hc with rfl | rfl <;> decide⟩, ?_⟩
  unfold httpdReference
  cases table.get? (String.ofList name) with
  | some mapping =>
    simp only [httpdLookup, List.getLast?_concat]
    decide
  | none => exact (isSealed_httpdVariable name).2

/-- The lookups of a text that was written for httpd name the maps of the table's entries. -/
theorem exists_entry_of_looksUp {table : RoutingTable} {name : Text} (htext : '\x7b' ∉ text)
    (hclosed : IsClosed table)
    (h : LooksUp (replaceTokens named? (httpdReference table) text) name) :
    ∃ entry ∈ table.entries, name = (table.mapName entry.1).toList := by
  obtain ⟨hcolon, rest, h⟩ := h
  obtain ⟨token, htoken, inner, behind, hstarts, heq⟩ := exists_token_of_starts
    (pieces_ne_of_not_starts fun behind hstarts => htext hstarts.mem.2)
    (fun token _ => isSealed_httpdReference table token) h
  have hname := (isNameChar_of_token_mem htoken).2
  cases hget : table.get? (String.ofList token) with
  | none =>
    simp only [httpdReference, hget] at hstarts
    exact absurd hstarts.mem.1 (dollar_not_mem_httpdVariable hname)
  | some mapping =>
    simp only [httpdReference, hget] at hstarts
    have hentry : (String.ofList token, mapping) ∈ table.entries := by
      obtain ⟨before, after, hsplit, -⟩ := List.lookup_eq_some_iff.1 hget
      rw [hsplit]
      exact List.mem_append_right before List.mem_cons_self
    obtain ⟨more, rfl⟩ := eq_of_starts_httpdLookup hname (hclosed _ hentry) hstarts
    refine ⟨_, hentry, ?_⟩
    -- both names end at the first colon
    have hmap : ':' ∉ (table.mapName (String.ofList token)).toList := by
      have hgroup : ':' ∉ table.group.name.toList := by cases table.group <;> decide
      have htoken : ':' ∉ token := fun hmem => absurd (hname ':' hmem) (by decide)
      simpa [RoutingTable.mapName, hgroup] using htoken
    rw [List.append_assoc, List.cons_append] at heq
    have hcut := congrArg (cut ':') heq
    rw [cut_eq_some_iff.2 ⟨rfl, hcolon⟩, cut_eq_some_iff.2 ⟨rfl, hmap⟩] at hcut
    exact (Prod.mk.inj (Option.some.inj hcut)).1

end HubRules.Reference
