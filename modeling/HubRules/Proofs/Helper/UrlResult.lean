import HubRules.Proofs.Helper.ReferencePath

/-!
# What the path of a URL begins with

A path that begins with a slash is written so that it begins with a slash, a reference or a
variable, except where a `$` that refers to nothing stands at its beginning
(`isAnchored_writtenPath_iff`). The remainder of a text is resolved to such a path below the host
that the text begins with, exactly if the remainder names no other server (`url_isBelowHost_iff`).
-/

namespace HubRules.Helper

open Text

/-- Whether a text begins with a slash, a reference or a variable of httpd. -/
def IsAnchored (text : Text) : Prop :=
  (∃ rest, text = '/' :: rest)
    ∨ ∃ (piece : SegmentPiece) (rest : Text), piece.refers ∧ text = piece.toText ++ rest

/-- Whether a text begins with a `$` that refers to nothing. -/
def IsStray (text : Text) : Prop :=
  ∃ rest, text = '$' :: rest ∧ ∀ c ∈ rest.head?, isReferenceChar c = false

/-- Whether a `$` that refers to nothing stands behind the one or two slashes of a path. -/
def HasStrayDollar (path : Text) : Prop :=
  ∃ text, IsStray text ∧ (path = '/' :: text ∨ path = '/' :: '/' :: text)

variable {text result : Text}

/-! ## The beginning of a path -/

theorem isStray_cons_iff {c : Char} {rest : Text} :
    IsStray (c :: rest) ↔ c = '$' ∧ ∀ d ∈ rest.head?, isReferenceChar d = false := by
  constructor
  · rintro ⟨_, heq, hrest⟩
    obtain ⟨rfl, rfl⟩ := List.cons.inj heq
    exact ⟨rfl, hrest⟩
  · rintro ⟨rfl, hrest⟩
    exact ⟨rest, rfl, hrest⟩

/-- The slash of a path stays. Behind it stands what stood there, without a second slash. -/
theorem exists_collapsed (path : Text) :
    ∃ body, replaceFirst "//".toList ['/'] ('/' :: path) = '/' :: body
      ∧ (HasStrayDollar ('/' :: path) ↔ IsStray body) := by
  cases path with
  | nil =>
    refine ⟨[], by decide, ?_⟩
    simp [HasStrayDollar, IsStray]
  | cons d more =>
    by_cases hd : d = '/'
    · subst hd
      refine ⟨more, replaceFirst_append (by decide) ['/'] more, ?_⟩
      constructor
      · rintro ⟨text, hstray, heq | heq⟩
        · rw [← (List.cons.inj heq).2, isStray_cons_iff] at hstray
          exact absurd hstray.1 (by decide)
        · rwa [(List.cons.inj (List.cons.inj heq).2).2]
      · exact fun hstray => ⟨more, hstray, .inr rfl⟩
    · have hfirst : ¬"//".toList <+: '/' :: d :: more := by
        rintro ⟨rest, heq⟩
        exact hd (List.cons.inj (List.cons.inj heq).2).1.symm
      have hsecond : ¬"//".toList <+: d :: more := by
        rintro ⟨rest, heq⟩
        exact hd (List.cons.inj heq).1.symm
      have hhead : (replaceFirst "//".toList ['/'] more).head? = more.head? :=
        head?_replaceFirst (by decide) (by decide) more
      refine ⟨d :: replaceFirst "//".toList ['/'] more,
        by rw [replaceFirst_cons hfirst, replaceFirst_cons hsecond], ?_⟩
      rw [isStray_cons_iff, hhead, ← isStray_cons_iff]
      constructor
      · rintro ⟨text, hstray, heq | heq⟩
        · rwa [(List.cons.inj heq).2]
        · exact absurd (List.cons.inj (List.cons.inj heq).2).1 hd
      · exact fun hstray => ⟨d :: more, hstray, .inl rfl⟩

/-- A variable is recognized only where one was encoded. -/
theorem exists_captured_of_isSome (h : (encodedVariable? text).isSome) :
    ∃ name hne hname rest, text = (SegmentPiece.captured name hne hname).encoded ++ rest := by
  obtain ⟨found, h⟩ := Option.isSome_iff_exists.1 h
  unfold encodedVariable? at h
  obtain ⟨behind, hstart, h⟩ := Option.bind_eq_some_iff.1 h
  dsimp only at h
  split at h
  · cases h
  · next hempty =>
    obtain ⟨rest, hend, -⟩ := Option.bind_eq_some_iff.1 h
    rw [drop_length_takeWhile, dropStart?_eq_some_iff] at hend
    refine ⟨behind.takeWhile Reference.isNameChar, by simpa using hempty,
      List.all_eq_true.1 List.all_takeWhile, rest, ?_⟩
    show text = "%%7BENV:MATCH_".toList ++ behind.takeWhile Reference.isNameChar ++ "%7D".toList
      ++ rest
    rw [dropStart?_eq_some_iff.1 hstart, List.append_assoc, List.append_assoc, ← hend,
      List.takeWhile_append_dropWhile]

theorem IsAnchored.head?_mem (h : IsAnchored text) :
    text.head? ∈ [some '/', some '$', some '%'] := by
  rcases h with ⟨rest, rfl⟩ | ⟨piece, rest, hrefers, rfl⟩
  · simp
  · cases piece with
    | plain c hc => cases hrefers
    | reference c hc => exact List.mem_cons_of_mem _ List.mem_cons_self
    | captured name hne hname =>
      rw [SegmentPiece.toText_captured]
      simp

theorem isAnchored_dollar_iff {rest : Text} :
    IsAnchored ('$' :: rest) ↔ ∃ c ∈ rest.head?, isReferenceChar c := by
  constructor
  · rintro (⟨_, heq⟩ | ⟨piece, behind, hrefers, heq⟩)
    · exact absurd (List.cons.inj heq).1 (by decide)
    · cases piece with
      | plain c hc => cases hrefers
      | reference c hc => exact ⟨c, by rw [(List.cons.inj heq).2]; rfl, hc⟩
      | captured name hne hname =>
        rw [SegmentPiece.toText_captured] at heq
        exact absurd (List.cons.inj heq).1 (by decide)
  · rintro ⟨c, hhead, hc⟩
    obtain ⟨more, rfl⟩ := List.head?_eq_some_iff.1 hhead
    exact .inr ⟨.reference c hc, more, rfl, rfl⟩

theorem exists_head?_restored_iff :
    (∃ c ∈ (replaceTokens encodedVariable? writeVariable text).head?, isReferenceChar c)
      ↔ ∃ c ∈ text.head?, isReferenceChar c := by
  cases text with
  | nil => rfl
  | cons c cs =>
    cases hr : encodedVariable? (c :: cs) with
    | none =>
      rw [replaceTokens_char hr]
      rfl
    | some found =>
      obtain ⟨name, hne, hname, rest, heq⟩ :=
        exists_captured_of_isSome (Option.isSome_iff_exists.2 ⟨found, hr⟩)
      -- both begin with a percent sign
      rw [heq, restored_piece, SegmentPiece.toText_captured, SegmentPiece.encoded_captured]
      rfl

theorem isAnchored_restored_iff (body : Text) :
    IsAnchored (restoreVariables (dropDollarSlash ('/' :: body))) ↔ ¬IsStray body := by
  by_cases hdollar : ∃ more, body = '$' :: more
  · obtain ⟨more, rfl⟩ := hdollar
    have hwritten : restoreVariables (dropDollarSlash ('/' :: '$' :: more))
        = '$' :: replaceTokens encodedVariable? writeVariable more :=
      replaceTokens_char (encodedVariable?_of_ne (by decide))
    rw [hwritten, isAnchored_dollar_iff, exists_head?_restored_iff]
    simp [IsStray]
  · have hstray : ¬IsStray body := fun ⟨more, heq, _⟩ => hdollar ⟨more, heq⟩
    have hkept : dropDollarSlash ('/' :: body) = '/' :: body := by
      unfold dropDollarSlash
      split
      · next heq => exact absurd ⟨_, (List.cons.inj heq).2⟩ hdollar
      · rfl
    rw [hkept, restoreVariables_slash]
    refine iff_of_true ?_ hstray
    split
    · next hsome =>
      obtain ⟨name, hne, hname, rest, rfl⟩ := exists_captured_of_isSome hsome
      rw [restored_piece]
      exact .inr ⟨.captured name hne hname, _, rfl, rfl⟩
    · exact .inl ⟨_, rfl⟩

/-- A path is written as one that begins with a slash, a reference or a variable, exactly if no `$`
that refers to nothing stands at its beginning. -/
theorem isAnchored_writtenPath_iff (path : Text) :
    IsAnchored (writtenPath ('/' :: path)) ↔ ¬HasStrayDollar ('/' :: path) := by
  obtain ⟨body, hbody, hstray⟩ := exists_collapsed path
  rw [writtenPath, hbody, isAnchored_restored_iff, hstray]

/-! ## The result -/

/-- The remainder of a text is resolved to an absolute path below the host that the text begins
with, exactly if it names no other server and no `$` that refers to nothing begins the path. -/
theorem url_isBelowHost_iff (h : url text = .ok result) :
    ∃ base target, Url.parse (server text) = .ok base ∧ base.join (remainder text) = .ok target
      ∧ (IsAnchored result ∧ target.IsOn base
        ↔ (∀ own ∈ Url.ownUrl? "http".toList (remainder text), own.IsOn base)
          ∧ ¬HasStrayDollar target.pathText) := by
  obtain ⟨base, target, hbase, htarget, rfl⟩ := url_eq_ok_iff.1 h
  have hscheme : base.scheme = "http".toList :=
    Url.scheme_parse (Url.isNormalScheme_of_web (.inl rfl)) hbase
  have hnormal : base.IsNormal := Url.parse_isNormal (.inl hscheme) hbase
  have hon := Url.isOn_iff_of_join hnormal htarget
  rw [hscheme] at hon
  refine ⟨base, target, hbase, htarget, ?_⟩
  rw [← hon, and_comm]
  refine and_congr_right fun hison => ?_
  obtain ⟨path, hpath⟩ := Url.exists_pathText_of_isOn hnormal htarget hison
  rw [hpath]
  exact isAnchored_writtenPath_iff path

/-- A doubled slash in the remainder is no server. -/
theorem url_isBelowHost_iff_doubled : url "host/a//b".toList = .ok "/a/b".toList
    ∧ ∃ base target, Url.parse (server "host/a//b".toList) = .ok base
      ∧ base.join (remainder "host/a//b".toList) = .ok target
      ∧ (IsAnchored "/a/b".toList ∧ target.IsOn base
        ↔ (∀ own ∈ Url.ownUrl? "http".toList (remainder "host/a//b".toList), own.IsOn base)
          ∧ ¬HasStrayDollar target.pathText) := by
  have hrun : url "host/a//b".toList = .ok "/a/b".toList := by rfl
  exact ⟨hrun, url_isBelowHost_iff hrun⟩

/-- A remainder with a scheme of its own is no path below the host, and a `$` at its end loses the
slash as a reference does. -/
theorem url_without_slash :
    url "host/mailto:x".toList = .ok "x".toList ∧ ¬IsAnchored "x".toList
      ∧ url "host/$".toList = .ok "$".toList ∧ ¬IsAnchored "$".toList := by
  refine ⟨rfl, fun hletter => ?_, rfl, fun hdollar => ?_⟩
  · have hfirst := hletter.head?_mem
    exact absurd hfirst (by decide)
  · obtain ⟨c, hc, -⟩ := isAnchored_dollar_iff.1 hdollar
    cases hc

end HubRules.Helper
