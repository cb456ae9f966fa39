import HubRules.Proofs.Routing.RuleTarget

/-!
# Numbered groups

What a text stands for once the captured parts of a request are known: each group, a sign with
the digits behind it, stands for the part of its number. A path has the sign `$`, the target of
a rule for httpd the sign `%`. Renumbering touches every `$` before a digit of any script and
no `%`, so the target stands for what the path stands for exactly if each such digit counts a
group and no `%` stands before one that does (`httpd_fills_iff`).
-/

namespace HubRules

open Text

namespace Reference

/-- The captured parts of a request, by the numbers of their groups. -/
abbrev Groups := Nat → Text

def groupNumber (digits : Text) : Nat :=
  digits.foldl (fun n d => 10 * n + (d.toNat - '0'.toNat)) 0

/-- A group at the head of a text, its sign and all digits behind it: its number and its
length. -/
def group? (sign : Char) : Text → Option (Nat × Nat)
  | [] => none
  | c :: rest =>
    let digits := rest.takeWhile Char.isDigit
    if c = sign ∧ digits ≠ [] then some (groupNumber digits, digits.length + 1) else none

def Groups.fill (groups : Groups) (sign : Char) (text : Text) : Text :=
  replaceTokens (group? sign) groups text

/-! ## Groups of a text -/

section Groups

variable {sign : Char} {digits rest : Text}

theorem group?_run (hne : digits ≠ []) (hdigits : ∀ c ∈ digits, c.isDigit)
    (hrest : ∀ c ∈ rest.head?, c.isDigit = false) :
    group? sign (sign :: (digits ++ rest)) = some (groupNumber digits, digits.length + 1) := by
  have hrun := takeWhile_append_stop hdigits hrest
  simp [group?, hrun, hne]

theorem group?_eq_some {text : Text} {number length : Nat}
    (h : group? sign text = some (number, length)) :
    ∃ digits rest, text = sign :: (digits ++ rest) ∧ digits ≠ [] ∧ (∀ c ∈ digits, c.isDigit)
      ∧ (∀ c ∈ rest.head?, c.isDigit = false) ∧ length = digits.length + 1 := by
  cases text with
  | nil => simp [group?] at h
  | cons c more =>
    simp only [group?] at h
    split at h
    · next hgroup =>
      obtain ⟨rfl, hne⟩ := hgroup
      obtain ⟨-, rfl⟩ : _ ∧ (more.takeWhile Char.isDigit).length + 1 = length := by simpa using h
      refine ⟨_, more.dropWhile Char.isDigit, by rw [List.takeWhile_append_dropWhile], hne,
        List.all_eq_true.1 List.all_takeWhile, fun d hd => ?_, rfl⟩
      have hstop := List.head?_dropWhile_not Char.isDigit more
      rwa [Option.mem_def.1 hd] at hstop
    · cases h

theorem group?_eq_none_iff {c : Char} :
    group? sign (c :: rest) = none ↔ (c = sign → ∀ d ∈ rest.head?, d.isDigit = false) := by
  cases rest with
  | nil => simp [group?]
  | cons d ds => by_cases hd : d.isDigit <;> simp [group?, hd]

theorem group?_within {text : Text} {number length : Nat}
    (h : group? sign text = some (number, length)) : 0 < length ∧ length ≤ text.length := by
  obtain ⟨digits, rest, rfl, -, -, -, rfl⟩ := group?_eq_some h
  simp only [List.length_cons, List.length_append]
  omega

/-- Texts are read from left to right, a group or a character outside groups at a time. -/
@[elab_as_elim]
theorem group_induction (sign : Char) {motive : Text → Prop} (nil : motive [])
    (char : ∀ c rest, group? sign (c :: rest) = none → motive rest → motive (c :: rest))
    (group : ∀ digits rest, digits ≠ [] → (∀ c ∈ digits, c.isDigit) →
      (∀ c ∈ rest.head?, c.isDigit = false) → motive rest → motive (sign :: (digits ++ rest)))
    (text : Text) : motive text := by
  induction text using token_induction (@group?_within sign) with
  | nil => exact nil
  | char c rest hnone ih => exact char c rest hnone ih
  | token found rest number _ hfound ih =>
    obtain ⟨digits, more, heq, hne, hdigits, hmore, hlength⟩ := group?_eq_some hfound
    obtain ⟨rfl, rfl⟩ : found = sign :: digits ∧ rest = more :=
      List.append_inj (by rw [heq, List.cons_append]) (by rw [hlength, List.length_cons])
    exact group digits rest hne hdigits hmore ih

variable (groups : Groups)

theorem Groups.fill_char {c : Char} (h : group? sign (c :: rest) = none) :
    groups.fill sign (c :: rest) = c :: groups.fill sign rest :=
  replaceTokens_char h

theorem Groups.fill_group (hne : digits ≠ []) (hdigits : ∀ c ∈ digits, c.isDigit)
    (hrest : ∀ c ∈ rest.head?, c.isDigit = false) :
    groups.fill sign (sign :: (digits ++ rest))
      = groups (groupNumber digits) ++ groups.fill sign rest :=
  replaceTokens_token (List.cons_ne_nil sign digits)
    (group?_run hne hdigits hrest)

end Groups

/-! ## Renumbering -/

theorem isDecimalDigit_of_isDigit {c : Char} (h : c.isDigit) : isDecimalDigit c := by
  refine List.any_eq_true.2 ⟨(0x30, 0x39), List.mem_cons_self, ?_⟩
  simpa [Char.isDigit, UInt32.le_iff_toNat_le] using h

theorem renumber_char {c : Char} {rest : Text}
    (h : c = '$' → ∀ d ∈ rest.head?, isDecimalDigit d = false) :
    renumber (c :: rest) = c :: renumber rest := by
  by_cases hc : c = '$'
  · cases rest with
    | nil => simp [renumber]
    | cons d ds => simp [renumber, h hc d rfl]
  · simp [renumber, hc]

theorem renumber_digits {digits : Text} (hdigits : ∀ c ∈ digits, c.isDigit) (rest : Text) :
    renumber (digits ++ rest) = digits ++ renumber rest := by
  induction digits with
  | nil => rfl
  | cons c cs ih =>
    obtain ⟨hc, hcs⟩ := List.forall_mem_cons.1 hdigits
    have hne : c ≠ '$' := ne_of_test hc (by decide)
    rw [List.cons_append, renumber_char fun h => absurd h hne, ih hcs, List.cons_append]

theorem renumber_group {digits rest : Text} (hne : digits ≠ [])
    (hdigits : ∀ c ∈ digits, c.isDigit) :
    renumber ('$' :: (digits ++ rest)) = '%' :: (digits ++ renumber rest) := by
  obtain ⟨d, ds, rfl⟩ := List.exists_cons_of_ne_nil hne
  have hd := isDecimalDigit_of_isDigit (hdigits d List.mem_cons_self)
  rw [renumber, renumber_digits hdigits]
  simp [hd]

theorem head?_renumber_not_digit {text : Text} (h : ∀ c ∈ text.head?, c.isDigit = false) :
    ∀ c ∈ (renumber text).head?, c.isDigit = false := by
  have hsame : (renumber text).head?.any Char.isDigit = text.head?.any Char.isDigit :=
    head?_renumber_any (by decide) text
  simp only [Option.mem_def, ← Option.any_eq_false] at h ⊢
  rw [hsame, h]

/-- Whether a text has no signs that renumbering confuses with those of its groups: no `%`
stands before a digit that counts a group, no `$` before another digit. -/
def KeepsGroups (text : Text) : Prop :=
  (∀ d : Char, d.isDigit → ¬['%', d] <:+: text)
    ∧ ∀ d : Char, isDecimalDigit d → d.isDigit = false → ¬['$', d] <:+: text

theorem keepsGroups_cons_iff {c : Char} {rest : Text} :
    KeepsGroups (c :: rest) ↔ (c = '%' → ∀ d ∈ rest.head?, d.isDigit = false)
      ∧ (c = '$' → ∀ d ∈ rest.head?, isDecimalDigit d → d.isDigit) ∧ KeepsGroups rest := by
  have hpair : ∀ sign d : Char, [sign, d] <:+: c :: rest ↔
      (c = sign ∧ d ∈ rest.head?) ∨ [sign, d] <:+: rest := by
    intro sign d
    rw [List.infix_cons_iff, List.cons_prefix_cons, eq_comm]
    cases rest with
    | nil => simp
    | cons e es => simp [eq_comm]
  simp only [KeepsGroups, hpair]
  grind

theorem keepsGroups_digits_append_iff {digits rest : Text} (hdigits : ∀ c ∈ digits, c.isDigit) :
    KeepsGroups (digits ++ rest) ↔ KeepsGroups rest := by
  induction digits with
  | nil => rfl
  | cons c cs ih =>
    obtain ⟨hc, hcs⟩ := List.forall_mem_cons.1 hdigits
    have hpercent : c ≠ '%' := ne_of_test hc (by decide)
    have hdollar : c ≠ '$' := ne_of_test hc (by decide)
    rw [List.cons_append, keepsGroups_cons_iff, ih hcs]
    simp [hpercent, hdollar]

/-- The groups of a text are those of the renumbered text. -/
theorem fill_renumber (groups : Groups) {text : Text} (h : KeepsGroups text) :
    groups.fill '%' (renumber text) = groups.fill '$' text := by
  induction text using group_induction '$' with
  | nil => rfl
  | char c rest hnone ih =>
    obtain ⟨hpercent, hdollar, hrest⟩ := keepsGroups_cons_iff.1 h
    have hplain : c = '$' → ∀ d ∈ rest.head?, isDecimalDigit d = false := by
      -- a `$` that begins no group stands before no digit of any script
      intro hc d hd
      rw [← Bool.not_eq_true]
      intro hdigit
      have hcounts := hdollar hc d hd hdigit
      rw [group?_eq_none_iff.1 hnone hc d hd] at hcounts
      cases hcounts
    have hnone' : group? '%' (c :: renumber rest) = none :=
      group?_eq_none_iff.2 fun hc => head?_renumber_not_digit (hpercent hc)
    rw [renumber_char hplain, groups.fill_char hnone', groups.fill_char hnone, ih hrest]
  | group digits rest hne hdigits hstop ih =>
    have hrest := (keepsGroups_digits_append_iff hdigits).1 (keepsGroups_cons_iff.1 h).2.2
    rw [renumber_group hne hdigits, groups.fill_group hne hdigits hstop,
      groups.fill_group hne hdigits (head?_renumber_not_digit hstop), ih hrest]

section Fill

variable {c : Char} {rest : Text} (hnone : group? '$' (c :: rest) = none)
  (h : ∀ groups : Groups, groups.fill '%' (renumber (c :: rest)) = groups.fill '$' (c :: rest))

include hnone h

/-- A `%` and its digits would go where every group stands for a zero. -/
theorem group?_percent_of_fill : group? '%' (c :: rest) = none := by
  rw [Option.eq_none_iff_forall_ne_some]
  rintro ⟨number, length⟩ hgroup
  obtain ⟨digits, more, heq, hne, hdigits, hmore, -⟩ := group?_eq_some hgroup
  obtain ⟨rfl, rfl⟩ := List.cons.inj heq
  have hzero := h fun _ => ['0']
  rw [renumber_char fun h => absurd h (by decide), renumber_digits hdigits,
    Groups.fill_char _ hnone,
    Groups.fill_group _ hne hdigits (head?_renumber_not_digit hmore)] at hzero
  exact absurd (List.cons.inj hzero).1 (by decide)

/-- A `$` that begins no group would become `%` before a digit of another script. -/
theorem not_digit_of_fill : c = '$' → ∀ d ∈ rest.head?, isDecimalDigit d = false := by
  rintro rfl d hd
  rw [← Bool.not_eq_true]
  intro hdigit
  have hsigns : renumber ('$' :: rest) = '%' :: renumber rest := by
    simp [renumber, Option.mem_def.1 hd, hdigit]
  have hnone' : group? '%' ('%' :: renumber rest) = none :=
    group?_eq_none_iff.2 fun _ => head?_renumber_not_digit (group?_eq_none_iff.1 hnone rfl)
  have hsign := h fun _ => []
  rw [hsigns, Groups.fill_char _ hnone', Groups.fill_char _ hnone] at hsign
  exact absurd (List.cons.inj hsign).1 (by decide)

end Fill

/-- A text whose groups are those of the renumbered text has no other signs before digits. -/
theorem keepsGroups_of_fill {text : Text}
    (h : ∀ groups : Groups, groups.fill '%' (renumber text) = groups.fill '$' text) :
    KeepsGroups text := by
  induction text using group_induction '$' with
  | nil => simp [KeepsGroups]
  | char c rest hnone ih =>
    have hpercent := group?_eq_none_iff.1 (group?_percent_of_fill hnone h)
    have hdollar := not_digit_of_fill hnone h
    have hnone' : group? '%' (c :: renumber rest) = none :=
      group?_eq_none_iff.2 fun hc => head?_renumber_not_digit (hpercent hc)
    refine keepsGroups_cons_iff.2 ⟨hpercent, fun hc d hd hdigit => ?_, ih fun groups => ?_⟩
    · rw [hdollar hc d hd] at hdigit
      cases hdigit
    · have heq := h groups
      rw [renumber_char hdollar, groups.fill_char hnone', groups.fill_char hnone] at heq
      exact (List.cons.inj heq).2
  | group digits rest hne hdigits hstop ih =>
    have hrest : KeepsGroups rest := by
      refine ih fun groups => ?_
      have heq := h groups
      rw [renumber_group hne hdigits, groups.fill_group hne hdigits hstop,
        groups.fill_group hne hdigits (head?_renumber_not_digit hstop)] at heq
      exact List.append_cancel_left heq
    obtain ⟨d, ds, rfl⟩ := List.exists_cons_of_ne_nil hne
    refine keepsGroups_cons_iff.2 ⟨fun h => absurd h (by decide), fun _ e he _ => ?_,
      (keepsGroups_digits_append_iff hdigits).2 hrest⟩
    obtain rfl : d = e := by simpa using he
    exact hdigits d List.mem_cons_self

theorem fill_renumber_iff {text : Text} :
    (∀ groups : Groups, groups.fill '%' (renumber text) = groups.fill '$' text)
      ↔ KeepsGroups text :=
  ⟨keepsGroups_of_fill, fun h groups => fill_renumber groups h⟩

end Reference

/-! ## Rules -/

namespace RequestRule

open Reference (Groups)

/-- The target of an httpd rule of a pattern with these flags. -/
def flaggedTarget? (pattern : Text) (flags : List Text) (rule : Text) : Option Text := do
  let rest ← dropStart?
    ("RewriteCond %\x7bREQUEST_URI\x7d ".toList ++ pattern ++ "\n    RewriteRule ^ ".toList) rule
  dropEnding? (" [".toList ++ (join [','] flags ++ [']'])) rest

theorem flaggedTarget?_httpd (pattern path : Text) (flags : List Text) :
    flaggedTarget? pattern flags (httpd pattern path flags) = some (Reference.renumber path) := by
  unfold flaggedTarget?
  rw [httpd_eq_append, dropStart?_append]
  exact dropEnding?_append _ _

/-- The target of a rule for httpd stands for what the path stands for, whatever was captured,
exactly if no `%` of the path stands before a digit and no `$` before a digit that counts no
group. -/
theorem httpd_fills_iff (pattern path : Text) (flags : List Text) :
    ∃ target, flaggedTarget? pattern flags (httpd pattern path flags) = some target
      ∧ ((∀ groups : Groups, groups.fill '%' target = groups.fill '$' path) ↔
        (∀ d : Char, d.isDigit → ¬['%', d] <:+: path)
          ∧ ∀ d : Char, isDecimalDigit d → d.isDigit = false → ¬['$', d] <:+: path) :=
  ⟨_, flaggedTarget?_httpd pattern path flags, Reference.fill_renumber_iff⟩

/-- A blank that is written `%20` is read as a group, which stands for nothing if nothing was
captured; a `$` before a digit of another script becomes `%`. -/
theorem httpd_confuses_signs :
    flaggedTarget? "^/a$".toList [] (httpd "^/a$".toList "/a%20b".toList [])
        = some "/a%20b".toList
      ∧ Groups.fill (fun _ => []) '%' "/a%20b".toList
        ≠ Groups.fill (fun _ => []) '$' "/a%20b".toList
      ∧ flaggedTarget? "^/x$".toList [] (httpd "^/x$".toList "/$٣".toList [])
        = some "/%٣".toList
      ∧ Groups.fill (fun _ => []) '%' "/%٣".toList
        ≠ Groups.fill (fun _ => []) '$' "/$٣".toList := by
  decide

end RequestRule

end HubRules
