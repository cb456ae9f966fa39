import HubRules.Reference
import HubRules.Proofs.Text.Tokens

/-!
# Stripping the names of groups

A pattern loses names of its groups and nothing else (`unnames_stripNamedGroups`). No opening with
a name is left but directly behind an escaped closing bracket (`bracket_of_stripNamedGroups`): what
is written for an opening neither begins one nor completes one that began before it. So stripping
again changes nothing (`stripNamedGroups_again`). A pattern may be cut before an escape and before
an opening, and stripped part by part, unless the cut divides an opening from the bracket that
keeps it (`stripNamedGroups_append`).
-/

namespace HubRules.Pattern

open Text

variable {name pattern before behind rest : Text}

/-! ## Openings of groups -/

/-- A word that a group can be named by. -/
def IsGroupName (name : Text) : Prop := name ≠ [] ∧ ∀ c ∈ name, isGroupNameChar c = true

/-- The opening of a group with a name, behind its parenthesis. -/
def nameMark (name : Text) : Text := "?<".toList ++ (name ++ ['>'])

def namedOpening (name : Text) : Text := '(' :: nameMark name

def bareOpening : Text := "(?:".toList

def bracket : Text := ['\\', ']']

/-- A character that an opening or an escape begins with. -/
def isOpeningStart (c : Char) : Bool := c == '(' || c == '\\'

theorem nameMark_starts_none (h : IsGroupName name) :
    ∀ c ∈ nameMark name, isOpeningStart c = false := by
  have hname : ∀ c ∈ name, isOpeningStart c = false := by
    intro c hc
    have hparen : c ≠ '(' := ne_of_test (h.2 c hc) (by decide)
    have hslash : c ≠ '\\' := ne_of_test (h.2 c hc) (by decide)
    simp [isOpeningStart, hparen, hslash]
  simp only [nameMark, List.forall_mem_append]
  exact ⟨by decide, hname, by decide⟩

theorem groupOpening?_named (h : IsGroupName name) (rest : Text) :
    groupOpening? (namedOpening name ++ rest) = some (namedOpening name).length := by
  have hrun : (name ++ ('>' :: rest)).takeWhile isGroupNameChar = name :=
    takeWhile_append_stop h.2 (by simp [isGroupNameChar])
  have hstart : dropStart? "(?<".toList (namedOpening name ++ rest) =
      some (name ++ '>' :: rest) := by
    rw [dropStart?_eq_some_iff]
    simp [namedOpening, nameMark]
  have hend : dropStart? ['>'] ((name ++ '>' :: rest).drop name.length) = some rest := by
    rw [List.drop_left]
    exact dropStart?_append ['>'] rest
  have hname : name.isEmpty = false := List.isEmpty_eq_false_iff.2 h.1
  have hlength : name.length + 4 = (namedOpening name).length := by
    simp [namedOpening, nameMark]
  simp only [groupOpening?, hstart, Option.bind_eq_bind, Option.bind_some, hrun, hname, hend,
    hlength, Bool.false_eq_true, if_false, Option.pure_def]

theorem exists_of_groupOpening? {text : Text} {length : Nat}
    (h : groupOpening? text = some length) :
    ∃ name rest, IsGroupName name ∧ text = namedOpening name ++ rest := by
  simp only [groupOpening?, Option.bind_eq_bind, Option.bind_eq_some_iff] at h
  obtain ⟨inner, hstart, h⟩ := h
  split at h
  · cases h
  · next hname =>
    obtain ⟨behind, hend, -⟩ := Option.bind_eq_some_iff.1 h
    rw [drop_length_takeWhile, dropStart?_eq_some_iff] at hend
    have hinner : inner = inner.takeWhile isGroupNameChar ++ '>' :: behind := by
      calc inner
          = inner.takeWhile isGroupNameChar ++ inner.dropWhile isGroupNameChar :=
            List.takeWhile_append_dropWhile.symm
        _ = inner.takeWhile isGroupNameChar ++ '>' :: behind := by rw [hend]; rfl
    refine ⟨inner.takeWhile isGroupNameChar, behind,
      ⟨by simpa using hname, List.all_eq_true.1 List.all_takeWhile⟩, ?_⟩
    rw [dropStart?_eq_some_iff.1 hstart]
    simpa [namedOpening, nameMark] using hinner

theorem opening?_named (h : IsGroupName name) (rest : Text) :
    opening? (namedOpening name ++ rest) = some (.named, (namedOpening name).length) := by
  rw [opening?, groupOpening?_named h]

theorem groupOpening?_bracket (rest : Text) : groupOpening? (bracket ++ rest) = none := by
  simp [groupOpening?, bracket, dropStart?, List.isPrefixOf]

theorem opening?_kept (h : IsGroupName name) (rest : Text) :
    opening? (bracket ++ namedOpening name ++ rest)
      = some (.kept (bracket ++ namedOpening name), (bracket ++ namedOpening name).length) := by
  have hdrop : dropStart? "\\]".toList (bracket ++ (namedOpening name ++ rest))
      = some (namedOpening name ++ rest) := dropStart?_append bracket _
  have hlength : (namedOpening name).length + 2 = (bracket ++ namedOpening name).length := by
    simp [bracket]
  have htake : (bracket ++ (namedOpening name ++ rest)).take (bracket ++ namedOpening name).length
      = bracket ++ namedOpening name := by
    rw [← List.append_assoc, List.take_left]
  rw [List.append_assoc, opening?, groupOpening?_bracket, hdrop]
  simp only [Option.bind_eq_bind, Option.bind_some, groupOpening?_named h, hlength, htake,
    Option.pure_def]

/-- What is recognized is an opening with a name, or one behind an escaped bracket. -/
theorem exists_of_opening? {text : Text} {found : Opening × Nat} (h : opening? text = some found) :
    ∃ name rest, IsGroupName name ∧
      (text = namedOpening name ++ rest ∨ text = bracket ++ namedOpening name ++ rest) := by
  unfold opening? at h
  split at h
  · next length hgroup =>
    obtain ⟨name, rest, hname, htext⟩ := exists_of_groupOpening? hgroup
    exact ⟨name, rest, hname, .inl htext⟩
  · simp only [Option.bind_eq_bind, Option.bind_eq_some_iff] at h
    obtain ⟨inner, hstart, length, hgroup, -⟩ := h
    obtain ⟨name, rest, hname, htext⟩ := exists_of_groupOpening? hgroup
    refine ⟨name, rest, hname, .inr ?_⟩
    rw [dropStart?_eq_some_iff.1 hstart, htext, List.append_assoc]
    rfl

theorem opening?_eq_none_iff {text : Text} :
    opening? text = none ↔ ∀ name rest, IsGroupName name →
      text ≠ namedOpening name ++ rest ∧ text ≠ bracket ++ namedOpening name ++ rest := by
  constructor
  · rintro h name rest hname
    constructor
    · rintro rfl
      rw [opening?_named hname] at h
      cases h
    · rintro rfl
      rw [opening?_kept hname] at h
      cases h
  · intro h
    cases hfound : opening? text with
    | none => rfl
    | some found =>
      obtain ⟨name, rest, hname, htext | htext⟩ := exists_of_opening? hfound
      · exact absurd htext (h name rest hname).1
      · exact absurd htext (h name rest hname).2

theorem opening?_of_not_start {c : Char} (h : isOpeningStart c = false) (rest : Text) :
    opening? (c :: rest) = none := by
  rw [opening?_eq_none_iff]
  rintro name behind -
  constructor <;>
  · intro heq
    rw [(List.cons.inj heq).1] at h
    cases h

theorem opening?_paren (h : groupOpening? ('(' :: rest) = none) :
    opening? ('(' :: rest) = none := by
  rw [opening?_eq_none_iff]
  intro name behind hname
  constructor
  · intro heq
    rw [heq, groupOpening?_named hname] at h
    cases h
  · intro heq
    cases heq

theorem opening?_within {text : Text} {found : Opening} {length : Nat}
    (h : opening? text = some (found, length)) : 0 < length ∧ length ≤ text.length := by
  obtain ⟨name, rest, hname, rfl | rfl⟩ := exists_of_opening? h
  · rw [opening?_named hname] at h
    obtain ⟨-, rfl⟩ := Prod.mk.inj (Option.some.inj h)
    simp [namedOpening]
  · rw [opening?_kept hname] at h
    obtain ⟨-, rfl⟩ := Prod.mk.inj (Option.some.inj h)
    simp [bracket]

/-! ## Stripping -/

@[simp] theorem stripNamedGroups_nil : stripNamedGroups [] = [] := rfl

theorem stripNamedGroups_char {c : Char} (h : opening? (c :: rest) = none) :
    stripNamedGroups (c :: rest) = c :: stripNamedGroups rest :=
  replaceTokens_char h

theorem stripNamedGroups_named (h : IsGroupName name) (rest : Text) :
    stripNamedGroups (namedOpening name ++ rest) = bareOpening ++ stripNamedGroups rest :=
  replaceTokens_token (List.cons_ne_nil _ _) (opening?_named h rest)

theorem stripNamedGroups_kept (h : IsGroupName name) (rest : Text) :
    stripNamedGroups (bracket ++ namedOpening name ++ rest)
      = bracket ++ namedOpening name ++ stripNamedGroups rest :=
  replaceTokens_token (List.cons_ne_nil _ _) (opening?_kept h rest)

/-- Patterns are read from left to right: an opening with a name, one behind the bracket that
keeps it, or a character at which neither begins at a time. -/
@[elab_as_elim]
theorem opening_induction {motive : Text → Prop} (nil : motive [])
    (char : ∀ c rest, opening? (c :: rest) = none → motive rest → motive (c :: rest))
    (named : ∀ name rest, IsGroupName name → motive rest → motive (namedOpening name ++ rest))
    (kept : ∀ name rest, IsGroupName name → motive rest →
      motive (bracket ++ namedOpening name ++ rest)) (pattern : Text) : motive pattern := by
  induction pattern using token_induction opening?_within with
  | nil => exact nil
  | char c rest hnone ih => exact char c rest hnone ih
  | token token rest found _ hfound ih =>
    obtain ⟨name, more, hname, heq | heq⟩ := exists_of_opening? hfound
    · have hlength : token.length = (namedOpening name).length := by
        rw [heq, opening?_named hname] at hfound
        exact (Prod.mk.inj (Option.some.inj hfound)).2.symm
      obtain ⟨rfl, rfl⟩ := List.append_inj heq hlength
      exact named name _ hname ih
    · have hlength : token.length = (bracket ++ namedOpening name).length := by
        rw [heq, opening?_kept hname] at hfound
        exact (Prod.mk.inj (Option.some.inj hfound)).2.symm
      obtain ⟨rfl, rfl⟩ := List.append_inj heq hlength
      exact kept name _ hname ih

theorem stripNamedGroups_run_append {run : Text} (h : ∀ c ∈ run, isOpeningStart c = false)
    (rest : Text) : stripNamedGroups (run ++ rest) = run ++ stripNamedGroups rest :=
  replaceTokens_run fun c _ hsuffix =>
    opening?_of_not_start (h c (hsuffix.mem List.mem_cons_self)) _

/-- A parenthesis with such characters behind it stays as well, if it opens no group with a
name. -/
theorem stripNamedGroups_paren_append {run : Text} (h : ∀ c ∈ run, isOpeningStart c = false)
    (hnone : groupOpening? ('(' :: run ++ rest) = none) :
    stripNamedGroups ('(' :: run ++ rest) = '(' :: run ++ stripNamedGroups rest := by
  calc stripNamedGroups ('(' :: run ++ rest)
      = '(' :: stripNamedGroups (run ++ rest) := stripNamedGroups_char (opening?_paren hnone)
    _ = '(' :: run ++ stripNamedGroups rest := by
      rw [stripNamedGroups_run_append h, List.cons_append]

theorem exists_of_stripNamedGroups {run : Text} (h : ∀ c ∈ run, isOpeningStart c = false)
    (heq : stripNamedGroups pattern = run ++ behind) :
    ∃ rest, pattern = run ++ rest ∧ stripNamedGroups rest = behind := by
  induction run generalizing pattern with
  | nil => exact ⟨pattern, rfl, heq⟩
  | cons c cs ih =>
    have hhead : isOpeningStart c = false := h c List.mem_cons_self
    cases pattern using opening_induction with
    | nil => cases heq
    | char d rest hnone =>
      rw [stripNamedGroups_char hnone] at heq
      obtain ⟨rfl, hrest⟩ := List.cons.inj heq
      obtain ⟨more, rfl, hmore⟩ := ih (fun e he => h e (List.mem_cons_of_mem d he)) hrest
      exact ⟨more, rfl, hmore⟩
    | named name rest hname =>
      rw [stripNamedGroups_named hname] at heq
      obtain rfl : '(' = c := (List.cons.inj heq).1
      cases hhead
    | kept name rest hname =>
      rw [stripNamedGroups_kept hname] at heq
      obtain rfl : '\\' = c := (List.cons.inj heq).1
      cases hhead

/-! ## What is left -/

/-- An opening with a name that is left stands directly behind an escaped bracket. -/
theorem bracket_of_stripNamedGroups (hname : IsGroupName name)
    (heq : stripNamedGroups pattern = before ++ namedOpening name ++ behind) :
    bracket <:+ before := by
  have hparen {run : Text} (hrun : ∀ c ∈ run, isOpeningStart c = false) : '(' ∉ run :=
    fun hmem => ne_of_test (hrun _ hmem) (by decide) rfl
  rw [List.append_assoc] at heq
  -- along the pattern: the opening is left of what is stripped first, or of the rest behind it
  induction pattern using opening_induction generalizing before with
  | nil => simp [namedOpening] at heq
  | char c rest hnone ih =>
    rw [stripNamedGroups_char hnone] at heq
    cases before with
    | nil =>
      obtain ⟨rfl, htail⟩ := List.cons.inj heq
      obtain ⟨more, rfl, -⟩ := exists_of_stripNamedGroups (nameMark_starts_none hname) htail
      exact absurd rfl (opening?_eq_none_iff.1 hnone name more hname).1
    | cons d ds =>
      obtain ⟨rfl, htail⟩ := List.cons.inj heq
      exact (ih htail).trans (List.suffix_cons _ _)
  | named other rest hother ih =>
    rw [stripNamedGroups_named hother] at heq
    cases before with
    | nil => simp [bareOpening, namedOpening, nameMark] at heq
    | cons d ds =>
      obtain ⟨rfl, htail⟩ := List.cons.inj heq
      have hmark : '(' ∉ "?:".toList := by decide
      obtain ⟨more, rfl, hmore⟩ := exists_of_run_append hmark htail
      exact (ih hmore).trans ⟨'(' :: "?:".toList, rfl⟩
  | kept other rest hother ih =>
    rw [stripNamedGroups_kept hother, List.append_assoc] at heq
    cases before with
    | nil => cases heq
    | cons d ds =>
      obtain ⟨rfl, htail⟩ := List.cons.inj heq
      have hsecond : '(' ∉ [']'] := by decide
      obtain ⟨more, rfl, hmore⟩ := exists_of_run_append hsecond htail
      cases more with
      | nil => exact List.suffix_rfl
      | cons e es =>
        obtain ⟨rfl, hinner⟩ := List.cons.inj hmore
        obtain ⟨last, rfl, hlast⟩ :=
          exists_of_run_append (hparen (nameMark_starts_none hother)) hinner
        exact (ih hlast).trans ⟨bracket ++ namedOpening other, by simp [bracket, namedOpening]⟩

/-- No opening begins where stripping leaves the character and what is stripped behind it. -/
theorem opening?_stripNamedGroups {c : Char} (h : opening? (c :: rest) = none) :
    opening? (c :: stripNamedGroups rest) = none := by
  rw [opening?_eq_none_iff] at h ⊢
  intro name behind hname
  constructor
  · intro heq
    obtain ⟨rfl, htail⟩ := List.cons.inj heq
    obtain ⟨more, rfl, -⟩ := exists_of_stripNamedGroups (nameMark_starts_none hname) htail
    exact (h name more hname).1 rfl
  · intro heq
    rw [List.append_assoc] at heq
    obtain ⟨rfl, htail⟩ := List.cons.inj heq
    -- the opening would be left at the head of what is stripped behind the bracket
    have hsecond : ∀ c ∈ [']'], isOpeningStart c = false := by decide
    obtain ⟨more, -, hmore⟩ := exists_of_stripNamedGroups hsecond htail
    have hbracket : bracket <:+ [] := bracket_of_stripNamedGroups hname hmore
    exact absurd hbracket (by decide)

theorem stripNamedGroups_again (pattern : Text) :
    stripNamedGroups (stripNamedGroups pattern) = stripNamedGroups pattern := by
  induction pattern using opening_induction with
  | nil => rfl
  | char c rest hnone ih =>
    rw [stripNamedGroups_char hnone, stripNamedGroups_char (opening?_stripNamedGroups hnone), ih]
  | named name rest hname ih =>
    have hnone : groupOpening? (bareOpening ++ stripNamedGroups rest) = none := by
      simp [groupOpening?, bareOpening, dropStart?, List.isPrefixOf]
    have hmark : ∀ c ∈ "?:".toList, isOpeningStart c = false := by decide
    rw [stripNamedGroups_named hname]
    calc stripNamedGroups (bareOpening ++ stripNamedGroups rest)
        = bareOpening ++ stripNamedGroups (stripNamedGroups rest) :=
          stripNamedGroups_paren_append hmark hnone
      _ = bareOpening ++ stripNamedGroups rest := by rw [ih]
  | kept name rest hname ih =>
    rw [stripNamedGroups_kept hname, stripNamedGroups_kept hname, ih]

/-! ## What changes -/

/-- A pattern, and one in which openings of groups with names are replaced by openings that
capture nothing. -/
inductive Unnames : Text → Text → Prop where
  | nil : Unnames [] []
  | keep (c : Char) {pattern stripped : Text} (rest : Unnames pattern stripped) :
    Unnames (c :: pattern) (c :: stripped)
  | replace (name : Text) (h : IsGroupName name) {pattern stripped : Text}
      (rest : Unnames pattern stripped) :
    Unnames (namedOpening name ++ pattern) (bareOpening ++ stripped)

theorem Unnames.keepAll (run : Text) {pattern stripped : Text} (h : Unnames pattern stripped) :
    Unnames (run ++ pattern) (run ++ stripped) := by
  induction run with
  | nil => exact h
  | cons c cs ih => exact .keep c ih

theorem unnames_stripNamedGroups (pattern : Text) : Unnames pattern (stripNamedGroups pattern) := by
  induction pattern using opening_induction with
  | nil => exact .nil
  | char c rest hnone ih =>
    rw [stripNamedGroups_char hnone]
    exact .keep c ih
  | named name rest hname ih =>
    rw [stripNamedGroups_named hname]
    exact .replace name hname ih
  | kept name rest hname ih =>
    rw [stripNamedGroups_kept hname]
    exact ih.keepAll _

/-- The parentheses of a pattern, in order. -/
def parentheses (pattern : Text) : Text := pattern.filter fun c => c == '(' || c == ')'

theorem Unnames.parentheses_eq {pattern stripped : Text} (h : Unnames pattern stripped) :
    parentheses stripped = parentheses pattern := by
  induction h with
  | nil => rfl
  | keep c rest ih =>
    unfold parentheses at ih ⊢
    rw [List.filter_cons, List.filter_cons, ih]
  | replace name h rest ih =>
    have hname : parentheses name = [] := by
      rw [parentheses, List.filter_eq_nil_iff]
      intro c hc
      have hopen : c ≠ '(' := ne_of_test (h.2 c hc) (by decide)
      have hclose : c ≠ ')' := ne_of_test (h.2 c hc) (by decide)
      simp [hopen, hclose]
    unfold parentheses at ih hname ⊢
    simp [namedOpening, nameMark, bareOpening, hname, ih]

/-! ## Part by part -/

/-- Where characters that begin no opening are read across a cut before one that does, they stand
before the cut. -/
theorem exists_of_cut {run : Text} (h : ∀ c ∈ run, isOpeningStart c = false)
    (hstart : ∀ c ∈ behind.head?, isOpeningStart c = true) (heq : before ++ behind = run ++ rest) :
    ∃ more, before = run ++ more ∧ more ++ behind = rest := by
  rcases List.append_eq_append_iff.1 heq with ⟨more, hrun, hbehind⟩ | ⟨more, hbefore, hrest⟩
  · cases more with
    | nil => exact ⟨[], by simpa using hrun.symm, by simpa using hbehind⟩
    | cons c cs =>
      have hbegins : isOpeningStart c = true := hstart c (by rw [hbehind]; rfl)
      have hnone : isOpeningStart c = false :=
        h c (hrun ▸ List.mem_append_right before List.mem_cons_self)
      exact absurd (hnone.symm.trans hbegins) (by decide)
  · exact ⟨more, hbefore, hrest.symm⟩

/-- A pattern is stripped part by part where it is cut before an opening or an escape, unless the
cut divides an opening from the bracket that keeps it. -/
theorem stripNamedGroups_append (hstart : ∀ c ∈ behind.head?, isOpeningStart c = true)
    (hcut : bracket <:+ before → groupOpening? behind = none) :
    stripNamedGroups (before ++ behind) = stripNamedGroups before ++ stripNamedGroups behind := by
  induction before using opening_induction with
  | nil => rfl
  | char c rest hnone ih =>
    have hrest := ih fun hsuffix => hcut (hsuffix.trans (List.suffix_cons c rest))
    have hwhole : opening? (c :: (rest ++ behind)) = none := by
      rw [opening?_eq_none_iff] at hnone ⊢
      intro name more hname
      constructor
      · intro heq
        obtain ⟨rfl, htail⟩ := List.cons.inj heq
        obtain ⟨inner, rfl, -⟩ := exists_of_cut (nameMark_starts_none hname) hstart htail
        exact (hnone name inner hname).1 rfl
      · intro heq
        rw [List.append_assoc] at heq
        obtain ⟨rfl, htail⟩ := List.cons.inj heq
        have hsecond : ∀ c ∈ [']'], isOpeningStart c = false := by decide
        obtain ⟨inner, rfl, hinner⟩ := exists_of_cut hsecond hstart htail
        cases inner with
        | nil =>
          have hnamed := groupOpening?_named hname more
          rw [← hinner, List.nil_append, hcut List.suffix_rfl] at hnamed
          cases hnamed
        | cons d ds =>
          obtain ⟨rfl, hopening⟩ := List.cons.inj hinner
          obtain ⟨last, rfl, -⟩ := exists_of_cut (nameMark_starts_none hname) hstart hopening
          exact (hnone name last hname).2 (by simp [bracket, namedOpening])
    rw [List.cons_append, stripNamedGroups_char hwhole, hrest, stripNamedGroups_char hnone,
      List.cons_append]
  | named name rest hname ih =>
    have hrest := ih fun hsuffix => hcut (hsuffix.trans (List.suffix_append _ rest))
    rw [List.append_assoc, stripNamedGroups_named hname, hrest, stripNamedGroups_named hname,
      List.append_assoc]
  | kept name rest hname ih =>
    have hrest := ih fun hsuffix => hcut (hsuffix.trans (List.suffix_append _ rest))
    rw [List.append_assoc, stripNamedGroups_kept hname, hrest, stripNamedGroups_kept hname]
    simp only [List.append_assoc]

/-- An opening directly behind an escaped bracket is kept, and the parts around it are stripped
by themselves. -/
theorem stripNamedGroups_bracket (h : IsGroupName name) (before behind : Text) :
    stripNamedGroups (before ++ (bracket ++ namedOpening name ++ behind)) =
      stripNamedGroups before ++ (bracket ++ namedOpening name ++ stripNamedGroups behind) := by
  have hgroup : groupOpening? (bracket ++ namedOpening name ++ behind) = none := by
    rw [List.append_assoc]
    exact groupOpening?_bracket _
  have hstart : ∀ c ∈ (bracket ++ namedOpening name ++ behind).head?, isOpeningStart c = true := by
    intro c hc
    obtain rfl : '\\' = c := Option.some.inj hc
    rfl
  rw [stripNamedGroups_append hstart fun _ => hgroup, stripNamedGroups_kept h]

/-- A look-behind is kept, and the parts around it are stripped by themselves. -/
theorem stripNamedGroups_lookBehind {sign : Char} (h : sign = '=' ∨ sign = '!')
    (before behind : Text) :
    stripNamedGroups (before ++ ("(?<".toList ++ [sign] ++ behind)) =
      stripNamedGroups before ++ ("(?<".toList ++ [sign] ++ stripNamedGroups behind) := by
  have hsign : isGroupNameChar sign = false := by rcases h with rfl | rfl <;> rfl
  have hgroup : groupOpening? ('(' :: ("?<".toList ++ [sign]) ++ behind) = none := by
    simp [groupOpening?, dropStart?, List.isPrefixOf, hsign]
  have hrun : ∀ c ∈ "?<".toList ++ [sign], isOpeningStart c = false := by
    rcases h with rfl | rfl <;> decide
  have hstart : ∀ c ∈ ('(' :: ("?<".toList ++ [sign]) ++ behind).head?,
      isOpeningStart c = true := by
    intro c hc
    obtain rfl : '(' = c := Option.some.inj hc
    rfl
  calc stripNamedGroups (before ++ ('(' :: ("?<".toList ++ [sign]) ++ behind))
      = stripNamedGroups before ++ stripNamedGroups ('(' :: ("?<".toList ++ [sign]) ++ behind) :=
        stripNamedGroups_append hstart fun _ => hgroup
    _ = _ := by rw [stripNamedGroups_paren_append hrun hgroup]; rfl

/-- Stripping replaces openings of groups with names and changes nothing else, so the parentheses
stay. Every opening with a name that is left stands directly behind an escaped bracket; such
openings, and look-behinds, are kept wherever they stand. Stripping again changes nothing. -/
theorem stripNamedGroups_unnames (pattern : Text) :
    (∀ before name behind, IsGroupName name →
      stripNamedGroups pattern = before ++ namedOpening name ++ behind → bracket <:+ before)
      ∧ Unnames pattern (stripNamedGroups pattern)
      ∧ parentheses (stripNamedGroups pattern) = parentheses pattern
      ∧ (∀ before name behind, IsGroupName name →
        pattern = before ++ (bracket ++ namedOpening name ++ behind) →
        stripNamedGroups pattern =
          stripNamedGroups before ++ (bracket ++ namedOpening name ++ stripNamedGroups behind))
      ∧ (∀ before sign behind, sign = '=' ∨ sign = '!' →
        pattern = before ++ ("(?<".toList ++ [sign] ++ behind) →
        stripNamedGroups pattern =
          stripNamedGroups before ++ ("(?<".toList ++ [sign] ++ stripNamedGroups behind))
      ∧ stripNamedGroups (stripNamedGroups pattern) = stripNamedGroups pattern := by
  have hunnames := unnames_stripNamedGroups pattern
  refine ⟨fun _ _ _ hname heq => bracket_of_stripNamedGroups hname heq, hunnames,
    hunnames.parentheses_eq, ?_, ?_, stripNamedGroups_again pattern⟩
  · rintro before name behind hname rfl
    exact stripNamedGroups_bracket hname before behind
  · rintro before sign behind hsign rfl
    exact stripNamedGroups_lookBehind hsign before behind

/-- An opening with a name behind an escaped bracket, in front of a look-behind and of an opening
that loses its name. -/
theorem stripNamedGroups_unnames_bracket :
    let pattern := "[\\](?<a>x)(?<=y)(?<b>z)".toList
    IsGroupName "a".toList
      ∧ pattern = ['['] ++ (bracket ++ namedOpening "a".toList ++ "x)(?<=y)(?<b>z)".toList)
      ∧ stripNamedGroups pattern = "[\\](?<a>x)(?<=y)(?:z)".toList := by
  intro pattern
  have hname : IsGroupName "a".toList := ⟨by decide, by decide⟩
  have hpattern : pattern =
      ['['] ++ (bracket ++ namedOpening "a".toList ++ "x)(?<=y)(?<b>z)".toList) := by decide
  obtain ⟨-, -, -, hbracket, -, -⟩ := stripNamedGroups_unnames pattern
  exact ⟨hname, hpattern, (hbracket _ _ _ hname hpattern).trans (by decide)⟩

/-- An opening behind an escaped bracket, one inside of a look-behind, and one in another. -/
example : stripNamedGroups "[\\](?<a>x)(?<=(?<b>y))(?<c(?<d>z)".toList
    = "[\\](?<a>x)(?<=(?:y))(?<c(?:z)".toList := by decide

end HubRules.Pattern
