import HubRules.Proofs.Template.Scopes

/-!
# Tags of names

The tags that a template needs for the values and blocks of names, and the plain text
between them, as they are written and as the reader finds them: plain text reaches up to
the next tag (`gap_append`), and a tag is read up to its end (`tagAhead_tag`).
-/

namespace HubRules.Template

/-! ## Text between tags -/

/-- Text without braces, backslashes and line ends. -/
def IsPlainText (text : Text) : Prop := ∀ c ∈ text, c ∉ ['\x7b', '\x7d', '\\', '\n', '\r']

theorem isPlainText_nil : IsPlainText [] := fun _ h => nomatch h

/-- A text that is over, or goes on with a tag. -/
def AtTag (text : Text) : Prop := text = [] ∨ ∃ rest, text = '\x7b' :: '\x7b' :: rest

theorem gap_append {text rest : Text} (plain : IsPlainText text) (next : AtTag rest) :
    gap (text ++ rest) = (text, rest) := by
  unfold gap
  induction text with
  | nil =>
    rcases next with rfl | ⟨more, rfl⟩
    · rfl
    · simp [gapFrom, List.isPrefixOf]
  | cons c cs ih =>
    obtain ⟨hbrace, hslash⟩ : c ≠ '\x7b' ∧ c ≠ '\\' := by
      have hc := plain c List.mem_cons_self
      simp only [List.mem_cons, not_or] at hc
      exact ⟨hc.1, hc.2.2.1⟩
    have hopening : "\x7b\x7b".toList.isPrefixOf (c :: (cs ++ rest)) = false := by
      simp [List.isPrefixOf, hbrace.symm]
    have hrest := ih fun d hd => plain d (List.mem_cons_of_mem c hd)
    simp only [List.cons_append, gapFrom, hopening, hrest, beq_false_of_ne hslash,
      Bool.false_eq_true, if_false]

/-! ## One tag -/

/-- A name: symbols, and at least one. -/
structure IsName (name : Text) : Prop where
  nonempty : name ≠ []
  symbols : ∀ c ∈ name, isSymbol c = true

/-- What a tag does with the name in it: it gives the value of that name, or opens or
closes the block of that name. -/
inductive NameTag where
  | value
  | opening
  | closing

namespace NameTag

def sign : NameTag → Text
  | value => []
  | opening => ['#']
  | closing => ['/']

def text (kind : NameTag) (name : Text) : Text :=
  "\x7b\x7b".toList ++ (kind.sign ++ (name ++ "\x7d\x7d".toList))

def tag (name : Text) : NameTag → Tag Text
  | value => .output (.path (.ofName name)) true
  | opening => .opening .section ⟨name, [], []⟩ []
  | closing => .closing name

/-- A name that the tag can be written with: an `else` at its head would be read as that
of a block. -/
structure Takes (kind : NameTag) (name : Text) : Prop where
  isName : IsName name
  noElse : kind = value → Text.dropStart? "else".toList name = none

theorem text_append (kind : NameTag) (name rest : Text) :
    kind.text name ++ rest =
      '\x7b' :: '\x7b' :: (kind.sign ++ (name ++ '\x7d' :: '\x7d' :: rest)) := by
  simp [text]

end NameTag

theorem endsPath_close (rest : Text) : ∀ c ∈ ('\x7d' :: rest).head?, endsPath c = true := by
  intro c hc
  obtain rfl : '\x7d' = c := Option.some.inj hc
  decide

theorem operands_close (limit : Nat) (rest : Text) :
    operands (limit + 2) ('\x7d' :: rest) = .ok ([], [], '\x7d' :: rest) := rfl

section Reading

variable {name : Text} (isName : IsName name) (rest : Text)
include isName

theorem IsName.append_ne {c : Char} (hc : isSymbol c = false) (behind : Text) :
    name ++ rest ≠ c :: behind :=
  append_ne_sign isName.symbols isName.nonempty rest hc behind

theorem skipBlanks_name : skipBlanks (name ++ rest) = name ++ rest := by
  obtain ⟨c, more, heq, hsymbol⟩ := exists_symbol isName.symbols isName.nonempty rest
  have hblank : isBlank c = false := by
    cases h : isBlank c with
    | false => rfl
    | true =>
      simp only [isBlank, Bool.or_eq_true, beq_iff_eq] at h
      rcases h with ((rfl | rfl) | rfl) | rfl <;> exact absurd hsymbol (by decide)
  simp [heq, skipBlanks, hblank]

theorem call_name : call (name ++ '\x7d' :: rest) = .ok (⟨name, [], []⟩, '\x7d' :: rest) := by
  have hname := name?_append isName.symbols (endsPath_close rest) isName.nonempty
  have hlimit : 4 * ('\x7d' :: rest).length + 4 = (4 * rest.length + 6) + 2 := by
    simp only [List.length_cons]
    omega
  simp only [call, skipBlanks_name isName, hname, hlimit, operands_close]
  rfl

theorem partialName?_name :
    partialName? (name ++ '\x7d' :: rest) = some (name, '\x7d' :: rest) := by
  have hwhole : (name ++ '\x7d' :: rest).takeWhile
      (fun c => isSymbol c || c == '/' || c == '.') = name := by
    refine Text.takeWhile_append_stop (fun c hc => ?_) fun c hc => ?_
    · simp [isName.symbols c hc]
    · obtain rfl : '\x7d' = c := Option.some.inj hc
      decide
  simp [partialName?, hwhole, isName.nonempty]

theorem subject_name :
    subject (name ++ '\x7d' :: rest) = .ok (.path (.ofName name), '\x7d' :: rest) := by
  have hcall := call_name isName rest
  have hpath := path?_append isName.symbols (endsPath_close rest) isName.nonempty
  unfold subject
  simp only [skipBlanks_name isName]
  split
  · next h => exact absurd h (isName.append_ne _ (by decide) _)
  · rw [hcall, hpath]
    rfl

theorem otherwise?_name (noElse : Text.dropStart? "else".toList name = none) :
    otherwise? (name ++ '\x7d' :: rest) = none := by
  have hword : ∀ c ∈ "else".toList, isSymbol c = true := by decide
  have hdrop := dropStart?_of_ends (endsPath_close rest) name hword
  rw [noElse, Option.map_none] at hdrop
  unfold otherwise?
  split
  · next h => exact absurd h (isName.append_ne _ (by decide) _)
  · simp only [hdrop]

theorem tagBody_value (noElse : Text.dropStart? "else".toList name = none) :
    tagBody (name ++ '\x7d' :: '\x7d' :: rest) =
      .ok (.output (.path (.ofName name)) true, false, rest) := by
  have hother := otherwise?_name isName ('\x7d' :: rest) noElse
  have hsubject := subject_name isName ('\x7d' :: rest)
  unfold tagBody
  simp only [skipBlanks_name isName]
  split
  case h_7 =>
    rw [hother, hsubject]
    rfl
  all_goals
    next h => exact absurd h (isName.append_ne _ (by decide) _)

theorem tagBody_opening :
    tagBody ('#' :: (name ++ '\x7d' :: '\x7d' :: rest)) =
      .ok (.opening .section ⟨name, [], []⟩ [], false, rest) := by
  have hcall := call_name isName ('\x7d' :: rest)
  have hsign : skipBlanks ('#' :: (name ++ '\x7d' :: '\x7d' :: rest)) =
      '#' :: (name ++ '\x7d' :: '\x7d' :: rest) := rfl
  simp only [tagBody, hsign, skipBlanks_name isName]
  split
  · next h => exact absurd h (isName.append_ne _ (by decide) _)
  · next h => exact absurd h (isName.append_ne _ (by decide) _)
  · rw [hcall]
    rfl

theorem tagBody_closing :
    tagBody ('/' :: (name ++ '\x7d' :: '\x7d' :: rest)) = .ok (.closing name, false, rest) := by
  have hname := partialName?_name isName ('\x7d' :: rest)
  have hsign : skipBlanks ('/' :: (name ++ '\x7d' :: '\x7d' :: rest)) =
      '/' :: (name ++ '\x7d' :: '\x7d' :: rest) := rfl
  simp only [tagBody, hsign, skipBlanks_name isName, hname]
  rfl

end Reading

/-- A tag is read up to its end, and trims nothing. -/
theorem tagAhead_tag {kind : NameTag} {name : Text} (takes : kind.Takes name) (rest : Text) :
    tagAhead (kind.text name ++ rest) = .ok (false, kind.tag name, false, rest) := by
  have isName := takes.isName
  have hbody : tagBody (kind.sign ++ (name ++ '\x7d' :: '\x7d' :: rest)) =
      .ok (kind.tag name, false, rest) := by
    cases kind with
    | value => exact tagBody_value isName rest (takes.noElse rfl)
    | opening => exact tagBody_opening isName rest
    | closing => exact tagBody_closing isName rest
  -- what follows the braces is no brace, comment or trimming mark
  obtain ⟨c, more, heq, hc, hskip⟩ : ∃ c more,
      kind.sign ++ (name ++ '\x7d' :: '\x7d' :: rest) = c :: more ∧
        c ∉ ['\x7b', '!', '~'] ∧ skipBlanks (c :: more) = c :: more := by
    obtain ⟨c, more, heq, hsymbol⟩ :=
      exists_symbol isName.symbols isName.nonempty ('\x7d' :: '\x7d' :: rest)
    have hblank := skipBlanks_name isName ('\x7d' :: '\x7d' :: rest)
    cases kind with
    | value =>
      refine ⟨c, more, heq, fun hmem => ?_, heq ▸ hblank⟩
      simp only [List.mem_cons, List.not_mem_nil, or_false] at hmem
      rcases hmem with rfl | rfl | rfl <;> exact absurd hsymbol (by decide)
    | opening => exact ⟨'#', _, rfl, by decide, rfl⟩
    | closing => exact ⟨'/', _, rfl, by decide, rfl⟩
  obtain ⟨hbrace, hmark, htrim⟩ : c ≠ '\x7b' ∧ c ≠ '!' ∧ c ≠ '~' := by simpa using hc
  rw [NameTag.text_append, heq]
  rw [heq] at hbody
  have hplain : trimMark (c :: more) = (false, c :: more) := by
    simp [trimMark, hskip, htrim]
  simp [tagAhead, hbrace, hmark, hplain, hbody, bind, Except.bind, pure, Except.pure]

end HubRules.Template
