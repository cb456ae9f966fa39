import HubRules.Proofs.Routing.Evaluation

/-!
# Separators in converted text

Rules divide texts at blanks and paths at slashes, and a text written for httpd is longer than
the text itself. A blank or slash comes in only with a lookup whose input or default has one
(`mem_toHttpd_iff`). What is left of such a text behind a slash, be it within a lookup, still
evaluates on its own (`ResumesAfterSlash`).
-/

namespace HubRules

open Reference Text

/-- The texts of an entry that are written into its lookups. -/
def Mapping.texts (mapping : Mapping) : List Text :=
  mapping.input.toList :: mapping.default?.toList.map String.toList

/-- Whether a text refers to an entry with the character in its lookup. -/
def Reference.Brings (table : RoutingTable) (c : Char) (text : Text) : Prop :=
  ∃ name mapping, .token name ∈ scan named? text ∧ table.get? (String.ofList name) = some mapping
    ∧ ∃ written ∈ mapping.texts, c ∈ written

section

variable {table : RoutingTable} {captures : Captures} {c : Char} {text name : Text}
  {mapping : Mapping}

theorem isPlain_of_mem_texts (h : mapping.isPlain) {written : Text}
    (hwritten : written ∈ mapping.texts) : isPlain written := by
  simp only [Mapping.isPlain, Bool.and_eq_true] at h
  rcases List.mem_cons.1 hwritten with rfl | hdefault
  · exact h.1
  · obtain ⟨d, hd, rfl⟩ := List.mem_map.1 hdefault
    rw [Option.mem_toList] at hd
    have := h.2
    rw [Option.mem_def.1 hd] at this
    exact this

/-! ## What is brought in -/

theorem not_mem_httpdVariable (hc : c = ' ' ∨ c = '/') (hlower : ∀ d ∈ name, isLowerNameChar d) :
    c ∉ httpdVariable name := by
  have hname : c ∉ toUpper name := by
    intro hmem
    have := isUpper_of_mem_toUpper hlower hmem
    rcases hc with rfl | rfl <;> exact absurd this (by decide)
  unfold httpdVariable
  simp only [List.mem_append, not_or]
  refine ⟨⟨?_, hname⟩, ?_⟩ <;> rcases hc with rfl | rfl <;> decide

theorem mem_toHttpdVariables_iff (hc : c = ' ' ∨ c = '/') (h : isPlain text) :
    c ∈ toHttpdVariables text ↔ c ∈ text := by
  have hlower := (Httpd.isPlain_iff.1 h).2
  constructor
  · intro hmem
    rcases mem_ofPieces.1 hmem with hchar | ⟨name, hname, hmem⟩
    · exact mem_of_char_mem_scan hchar
    · exact absurd hmem (not_mem_httpdVariable hc (hlower name hname))
  · intro hmem
    rw [← ofPieces_scan_named text] at hmem
    rcases mem_ofPieces.1 hmem with hchar | ⟨name, hname, hmem⟩
    · exact mem_ofPieces.2 (.inl hchar)
    · have hnameChar := (isNameChar_of_token_mem hname).2
      rcases List.mem_cons.1 hmem with rfl | hmem
      · simp at hc
      · have := hnameChar c hmem
        rcases hc with rfl | rfl <;> exact absurd this (by decide)

theorem mem_httpdLookup_iff (hc : c = ' ' ∨ c = '/') (hlower : ∀ d ∈ name, isLowerNameChar d)
    (hmapping : mapping.isPlain) :
    c ∈ httpdLookup table name mapping ↔ ∃ written ∈ mapping.texts, c ∈ written := by
  have hgroup : c ∉ table.group.name.toList := by
    rcases hc with rfl | rfl <;> cases table.group <;> decide
  have hname : c ∉ name := by
    intro hmem
    have := hlower c hmem
    rcases hc with rfl | rfl <;> exact absurd this (by decide)
  have hsigns : c ∉ "$\x7b".toList ∧ c ∉ ['_'] ∧ c ∉ [':'] ∧ c ∉ ['|'] ∧ c ∉ ['\x7d'] := by
    rcases hc with rfl | rfl <;> decide
  have hplain := fun written => @isPlain_of_mem_texts mapping hmapping written
  have hinput : mapping.input.toList ∈ mapping.texts := List.mem_cons_self
  rw [Httpd.httpdLookup_eq]
  unfold Httpd.Lookup.toText
  simp only [List.mem_append, hsigns, hgroup, hname, false_or, or_false,
    mem_toHttpdVariables_iff hc (hplain _ hinput)]
  cases hd : mapping.default? with
  | none => simp [Mapping.texts, hd]
  | some d =>
    have hdefault : d.toList ∈ mapping.texts := by simp [Mapping.texts, hd]
    simp only [Option.elim_some, mem_toHttpdVariables_iff hc (hplain _ hdefault)]
    simp [Mapping.texts, hd]

/-- The separators of a converted text are its own and those that its lookups bring in. -/
theorem mem_toHttpd_iff (hc : c = ' ' ∨ c = '/') (htable : table.isPlain) (htext : isPlain text) :
    c ∈ toHttpd table text ↔ c ∈ text ∨ Brings table c text := by
  have hlower := (Httpd.isPlain_iff.1 htext).2
  have hreference : ∀ name, .token name ∈ scan named? text →
      (c ∈ httpdReference table name ↔ ∃ mapping, table.get? (String.ofList name) = some mapping
        ∧ ∃ written ∈ mapping.texts, c ∈ written) := by
    intro name hname
    unfold httpdReference
    cases hget : table.get? (String.ofList name) with
    | none => simpa using not_mem_httpdVariable hc (hlower name hname)
    | some mapping =>
      simpa using mem_httpdLookup_iff hc (hlower name hname) (Httpd.mapping_isPlain htable hget)
  constructor
  · intro hmem
    rcases mem_ofPieces.1 hmem with hchar | ⟨name, hname, hmem⟩
    · exact .inl (mem_of_char_mem_scan hchar)
    · obtain ⟨mapping, hget, hwritten⟩ := (hreference name hname).1 hmem
      exact .inr ⟨name, mapping, hname, hget, hwritten⟩
  · rintro (hmem | ⟨name, mapping, hname, hget, hwritten⟩)
    · rw [← mem_toHttpdVariables_iff hc htext] at hmem
      rcases mem_ofPieces.1 hmem with hchar | ⟨name, hname, hmem⟩
      · exact mem_ofPieces.2 (.inl hchar)
      · exact absurd hmem (not_mem_httpdVariable hc (hlower name hname))
    · exact mem_ofPieces.2 (.inr ⟨name, hname, (hreference name hname).2 ⟨mapping, hget, hwritten⟩⟩)

/-! ## What a converted text begins with -/

theorem httpdReference_eq_cons (table : RoutingTable) (name : Text) :
    ∃ c more, httpdReference table name = c :: more ∧ (c = '$' ∨ c = '%') := by
  unfold httpdReference
  cases table.get? (String.ofList name) with
  | some mapping => exact ⟨'$', _, rfl, .inl rfl⟩
  | none => exact ⟨'%', _, rfl, .inr rfl⟩

theorem toHttpd_cases (table : RoutingTable) (c : Char) (rest : Text) :
    toHttpd table (c :: rest) = c :: toHttpd table rest
      ∨ c = '$' ∧ ∃ d more, toHttpd table (c :: rest) = d :: more ∧ (d = '$' ∨ d = '%') := by
  cases hnamed : named? (c :: rest) with
  | none => exact .inl (replaceTokens_char hnamed)
  | some found =>
    obtain ⟨name, length⟩ := found
    obtain ⟨_, hrest, hname, -, rfl⟩ := named?_eq_some_iff.1 hnamed
    obtain ⟨rfl, rfl⟩ := List.cons.inj hrest
    have htext : '$' :: rest = ('$' :: name) ++ rest.dropWhile isNameChar := by
      rw [hname, List.cons_append, List.takeWhile_append_dropWhile]
    have htoken : toHttpd table ('$' :: rest)
        = httpdReference table name ++ toHttpd table (rest.dropWhile isNameChar) := by
      rw [htext]
      refine replaceTokens_token (by simp) ?_
      rw [← htext]
      exact hnamed
    obtain ⟨d, more, hwritten, hd⟩ := httpdReference_eq_cons table name
    rw [hwritten] at htoken
    exact .inr ⟨rfl, d, _, htoken, hd⟩

/-- A literal text stands at the head of a converted text if it stands at the head of the
text. -/
theorem isPrefixOf_toHttpd {literal : Text} (hdollar : '$' ∉ literal) (hpercent : '%' ∉ literal)
    (text : Text) : literal.isPrefixOf (toHttpd table text) = literal.isPrefixOf text := by
  induction literal generalizing text with
  | nil => simp
  | cons a as ih =>
    obtain ⟨ha, has⟩ : '$' ≠ a ∧ '$' ∉ as := by simpa using hdollar
    obtain ⟨ha', has'⟩ : '%' ≠ a ∧ '%' ∉ as := by simpa using hpercent
    cases text with
    | nil => rfl
    | cons c rest =>
      rcases toHttpd_cases table c rest with hchar | ⟨rfl, d, more, hwritten, hd⟩
      · rw [hchar]
        simp only [List.isPrefixOf, ih has has']
      · rw [hwritten]
        have hdollar' : (a == '$') = false := by simpa using Ne.symm ha
        have hd' : (a == d) = false := by
          rcases hd with rfl | rfl
          · exact hdollar'
          · simpa using Ne.symm ha'
        simp only [List.isPrefixOf, hdollar', hd', Bool.false_and]

theorem head?_toHttpd {sign : Char} (hdollar : sign ≠ '$') (hpercent : sign ≠ '%') (text : Text) :
    (toHttpd table text).head? = some sign ↔ text.head? = some sign := by
  cases text with
  | nil => rfl
  | cons c rest =>
    rcases toHttpd_cases table c rest with hchar | ⟨rfl, d, more, hwritten, hd⟩
    · rw [hchar]
      rfl
    · rw [hwritten]
      simp only [List.head?_cons, Option.some.injEq, Ne.symm hdollar, iff_false]
      intro heq
      subst heq
      exact hd.elim hdollar hpercent

theorem toHttpd_eq_nil_iff : toHttpd table text = [] ↔ text = [] := by
  cases text with
  | nil => simp [toHttpd]
  | cons c rest =>
    rcases toHttpd_cases table c rest with hchar | ⟨rfl, d, more, hwritten, -⟩
    · simp [hchar]
    · simp [hwritten]

/-! ## What is left behind a slash -/

/-- Whatever is left of a text behind a slash evaluates on its own. -/
def ResumesAfterSlash (table : RoutingTable) (captures : Captures) (text : Text) : Prop :=
  ∀ before behind, text = before ++ '/' :: behind →
    ∃ value, Httpd.Evaluates table captures behind value

namespace ResumesAfterSlash

theorem of_not_mem (h : '/' ∉ text) : ResumesAfterSlash table captures text := by
  rintro before behind rfl
  exact absurd (List.mem_append_right before List.mem_cons_self) h

theorem append {rest value : Text} (htext : ResumesAfterSlash table captures text)
    (hrest : ResumesAfterSlash table captures rest)
    (hvalue : Httpd.Evaluates table captures rest value) :
    ResumesAfterSlash table captures (text ++ rest) := by
  intro before behind heq
  rcases List.append_eq_append_iff.1 heq with ⟨more, rfl, hmore⟩ | ⟨more, hmore, hbehind⟩
  · exact hrest more behind hmore
  · cases more with
    | nil =>
      refine hrest [] behind ?_
      simpa using hbehind.symm
    | cons c inside =>
      -- the slash is within the first text
      obtain ⟨rfl, rfl⟩ := List.cons.inj hbehind
      obtain ⟨value', hvalue'⟩ := htext before inside hmore
      exact ⟨_, hvalue'.append hvalue⟩

theorem append_of_not_mem {rest : Text} (h : '/' ∉ text)
    (hrest : ResumesAfterSlash table captures rest) :
    ResumesAfterSlash table captures (text ++ rest) := by
  intro before behind heq
  rcases List.append_eq_append_iff.1 heq with ⟨more, rfl, hmore⟩ | ⟨more, rfl, hbehind⟩
  · exact hrest more behind hmore
  · cases more with
    | nil =>
      refine hrest [] behind ?_
      simpa using hbehind.symm
    | cons c inside =>
      obtain ⟨rfl, rfl⟩ := List.cons.inj hbehind
      exact absurd (List.mem_append_right before List.mem_cons_self) h

/-- Pieces that evaluate on their own resume, if each of them does. -/
theorem pieces {write write' : Text → Text} {list : List (Piece Text)}
    (hchar : ∀ c, .char c ∈ list → c ≠ '%' ∧ c ≠ '\x7b')
    (htoken : ∀ name, .token name ∈ list →
      Httpd.Evaluates table captures (write name) (write' name)
        ∧ ResumesAfterSlash table captures (write name)) :
    ResumesAfterSlash table captures (ofPieces write list) := by
  -- what stands behind a slash goes on with the pieces behind it, so that these must evaluate
  suffices h : Httpd.Evaluates table captures (ofPieces write list) (ofPieces write' list)
      ∧ ResumesAfterSlash table captures (ofPieces write list) from h.2
  refine @ofPieces_related _ write (fun text value => Httpd.Evaluates table captures text value
    ∧ ResumesAfterSlash table captures text) write' list ⟨.nil, of_not_mem (by simp)⟩
    (fun ha hb => ⟨ha.1.append hb.1, append ha.2 hb.2 hb.1⟩) (fun c hc => ?_) htoken
  obtain ⟨hpercent, hbrace⟩ := hchar c hc
  refine ⟨.literal (by simpa using hpercent.symm) (by simpa using hbrace.symm), ?_⟩
  intro before behind heq
  cases before with
  | nil =>
    obtain ⟨rfl, rfl⟩ := List.cons.inj heq
    exact ⟨_, .nil⟩
  | cons d more => simp at heq

theorem toHttpdVariables (hcaptures : captures.IsPlain) (h : isPlain text) :
    ResumesAfterSlash table captures (toHttpdVariables text)
      ∧ Httpd.Evaluates table captures (toHttpdVariables text) (captures.fill text) := by
  obtain ⟨hchars, hlower⟩ := Httpd.isPlain_iff.1 h
  have hchar : ∀ c, .char c ∈ scan named? text → c ≠ '%' ∧ c ≠ '\x7b' := by
    intro c hc
    have := hchars c (mem_of_char_mem_scan hc)
    exact ⟨ne_of_test this rfl, ne_of_test this rfl⟩
  have htoken : ∀ name, .token name ∈ scan named? text →
      Httpd.Evaluates table captures (httpdVariable name) (captures name) := fun name hname =>
    .named hcaptures (isNameChar_of_token_mem hname).1 (hlower name hname)
  exact ⟨pieces hchar fun name hname =>
      ⟨htoken name hname, of_not_mem (not_mem_httpdVariable (.inr rfl) (hlower name hname))⟩,
    .pieces hchar htoken⟩

theorem httpdReference (htable : table.isPlain) (hcaptures : captures.IsPlain)
    (hlower : ∀ d ∈ name, isLowerNameChar d) :
    ResumesAfterSlash table captures (httpdReference table name) := by
  unfold Reference.httpdReference
  cases hget : table.get? (String.ofList name) with
  | none => exact of_not_mem (not_mem_httpdVariable (.inr rfl) hlower)
  | some mapping =>
    have hplain := Httpd.mapping_isPlain htable hget
    simp only [Mapping.isPlain, Bool.and_eq_true] at hplain
    have hgroup : '/' ∉ table.group.name.toList := by cases table.group <;> decide
    have hname : '/' ∉ name := fun hmem => absurd (hlower _ hmem) (by decide)
    -- a slash of a lookup is in its key or in its default, behind which the signs are literal
    obtain ⟨hinput, hinputValue⟩ := @toHttpdVariables table captures _ hcaptures hplain.1
    obtain ⟨default_, hdefault, hdefaultValue⟩ : ∃ default_, ResumesAfterSlash table captures
          (mapping.default?.elim [] fun d => Reference.toHttpdVariables d.toList)
        ∧ Httpd.Evaluates table captures
          (mapping.default?.elim [] fun d => Reference.toHttpdVariables d.toList) default_ := by
      cases hd : mapping.default? with
      | none => exact ⟨_, of_not_mem (by simp), .nil⟩
      | some d => exact ⟨_, toHttpdVariables hcaptures (by simpa [hd] using hplain.2)⟩
    have hend : Httpd.Evaluates table captures ['\x7d'] ['\x7d'] := .literal (by decide) (by decide)
    have hbar : Httpd.Evaluates table captures ['|'] ['|'] := .literal (by decide) (by decide)
    have hnoSlash : '/' ∉ ['|'] := by decide
    have hbehind := append hdefault (of_not_mem (by decide)) hend
    have hkey := append hinput (append_of_not_mem hnoSlash hbehind)
      (hbar.append (hdefaultValue.append hend))
    simp only [Httpd.httpdLookup_eq, Httpd.Lookup.toText]
    exact append_of_not_mem (by decide) <| append_of_not_mem hgroup <|
      append_of_not_mem (by decide) <| append_of_not_mem hname <|
      append_of_not_mem (by decide) hkey

/-- What is left of a converted text behind a slash evaluates, be the slash in a lookup. -/
theorem toHttpd (htable : table.isPlain) (hcaptures : captures.IsPlain) (htext : isPlain text) :
    ResumesAfterSlash table captures (toHttpd table text) := by
  obtain ⟨hchars, hlower⟩ := Httpd.isPlain_iff.1 htext
  refine @pieces table captures _ (Nginx.value table captures) _ (fun c hc => ?_)
    fun name hname => ?_
  · have := hchars c (mem_of_char_mem_scan hc)
    exact ⟨ne_of_test this rfl, ne_of_test this rfl⟩
  · have hlowerName := hlower name hname
    exact ⟨.httpdReference htable hcaptures (isNameChar_of_token_mem hname).1 hlowerName,
      httpdReference htable hcaptures hlowerName⟩

end ResumesAfterSlash

end

end HubRules
