import HubRules.Proofs.Url.Authority

/-!
# URLs without a host

A URL of a scheme that is not special may have no host. Its path is a list of segments
(`IsNormalRooted`) or one flat text (`IsNormalFlat`); in both forms it is read back from its text
(`readOther_rooted`, `readOther_flat`).
-/

namespace HubRules.Url

open Text

/-- A URL with nothing between its scheme and its path. -/
structure IsHostless (url : Url) : Prop where
  host : url.host = none
  bare : url.username = [] ∧ url.password = [] ∧ url.port = none
  tail : IsNormalTail false url.query url.fragment

/-- A URL without a host whose path stays as it is, segment by segment. -/
structure IsNormalRooted (url : Url) : Prop extends url.IsHostless where
  path : ∃ segments, url.path = .segments segments ∧ segments ≠ []
    ∧ ∀ segment ∈ segments, IsNormalSegment false false segment

/-- A URL without a host whose path stays as it is, as one text. If it is all that there is, it
does not end in a blank. -/
structure IsNormalFlat (url : Url) : Prop extends url.IsHostless where
  path : ∃ text, url.path = .flat text ∧ IsPlain (fun _ => false) text
    ∧ (∀ c ∈ text, c ≠ '?' ∧ c ≠ '#') ∧ text.head? ≠ some '/'
    ∧ (url.query = none → url.fragment = none → ∀ c ∈ text.getLast?, 32 < c.toNat)

def ofPath (scheme : Text) (path : UrlPath) (tail : Text) : Url :=
  withTail false ⟨scheme, [], [], none, none, path, none, none⟩ tail

theorem ofPath_isHostless (scheme : Text) (path : UrlPath) (tail : Text) :
    (ofPath scheme path tail).IsHostless :=
  ⟨rfl, ⟨rfl, rfl, rfl⟩, readTail_isNormal false tail⟩

theorem IsHostless.ofPath_eq {url : Url} (h : url.IsHostless) :
    ofPath url.scheme url.path (tailText url.query url.fragment) = url := by
  obtain ⟨hname, hword, hport⟩ := h.bare
  have hhost := h.host
  unfold ofPath withTail
  rw [readTail_tailText h.tail]
  cases url
  simp_all

/-! ## What is read -/

theorem readOther_slash {scheme rest : Text} (h : rest.head? ≠ some '/') :
    readOther scheme ('/' :: rest) = .ok (ofPath scheme
      (.segments (readSegments false false [] (cutPath rest).1)) (cutPath rest).2) := by
  unfold readOther
  split
  · next heq =>
    rw [(List.cons.inj heq).2] at h
    exact absurd rfl h
  · next heq =>
    rw [(List.cons.inj heq).2]
    rfl
  · next hne => exact absurd rfl (hne rest)

theorem readOther_of_head? {scheme text : Text} (h : text.head? ≠ some '/') :
    readOther scheme text = .ok (ofPath scheme
      (.flat (percentEncode (fun _ => false) (cutPath text).1)) (cutPath text).2) := by
  unfold readOther
  split
  · exact absurd rfl h
  · exact absurd rfl h
  · rfl

theorem scheme_readOther {scheme text : Text} {url : Url} (h : readOther scheme text = .ok url) :
    url.scheme = scheme := by
  unfold readOther at h
  split at h
  · exact (readAuthority_isNormal h).1
  · obtain rfl := Except.ok.inj h
    rfl
  · obtain rfl := Except.ok.inj h
    rfl

theorem rooted_isNormal (scheme text tail : Text) :
    (ofPath scheme (.segments (readSegments false false [] text)) tail).IsNormalRooted where
  toIsHostless := ofPath_isHostless scheme _ tail
  path := ⟨_, rfl, readSegments_ne_nil, (readSegments_isNormal (by simp) text).segments⟩

theorem flat_isNormal {scheme text : Text} (hhead : text.head? ≠ some '/')
    (hlast : ∀ c ∈ text.getLast?, 32 < c.toNat) :
    (ofPath scheme (.flat (percentEncode (fun _ => false) (cutPath text).1))
      (cutPath text).2).IsNormalFlat where
  toIsHostless := ofPath_isHostless scheme _ _
  path := by
    have hsigns : ∀ c ∈ byteSigns, c ≠ '?' ∧ c ≠ '#' ∧ c ≠ '/' ∧ 32 < c.toNat := by decide
    obtain ⟨htext, hchars, htail⟩ := cutPath_spec text
    refine ⟨_, rfl, isPlain_percentEncode (by unfold IsPlain; decide) _, fun c hc => ?_, ?_, ?_⟩
    · rcases mem_percentEncode hc with hsign | ⟨hmem, -⟩
      · exact ⟨(hsigns c hsign).1, (hsigns c hsign).2.1⟩
      · exact hchars c hmem
    · intro hslash
      rcases head?_percentEncode hslash with heq | hpath
      · exact absurd heq (by decide)
      · refine hhead ?_
        rw [← htext, List.head?_append, hpath]
        rfl
    · intro hquery hfragment c hc
      rcases getLast?_percentEncode hc with hsign | hpath
      · exact (hsigns c hsign).2.2.2
      · have hnil := eq_nil_of_readTail htail ⟨hquery, hfragment⟩
        rw [hnil, List.append_nil] at htext
        exact hlast c (htext ▸ hpath)

/-! ## URLs without a host and their texts -/

theorem splitSlashes_false (text : Text) : splitSlashes false text = split '/' text := by
  have hsame : (text.map fun c => if isSlash false c then '/' else c) = text := by
    refine (List.map_congr_left fun c _ => ?_).trans (List.map_id _)
    split
    · next hslash =>
      simp only [isSlash, Bool.false_and, Bool.or_false, beq_iff_eq] at hslash
      exact hslash.symm
    · rfl
  unfold splitSlashes
  rw [hsame]

/-- A dot in front of an empty segment keeps it from being read as a host, and is left out. -/
theorem readSegments_dot {next : Text} {more : List Text}
    (h : ∀ segment ∈ [] :: next :: more, IsNormalSegment false false segment) :
    readSegments false false [] ('.' :: (UrlPath.segments ([] :: next :: more)).toText)
      = [] :: next :: more := by
  have hsplit : splitSlashes false ('.' :: (UrlPath.segments ([] :: next :: more)).toText)
      = ['.'] :: [] :: next :: more := by
    rw [toText_segments (by simp), splitSlashes_false]
    show split '/' (['.'] ++ '/' :: Text.join ['/'] ([] :: next :: more)) = _
    rw [split_append, ← splitSlashes_false (Text.join _ _),
      splitSlashes_join (by simp) fun segment hs => (h segment hs).isSlash_of_mem]
    rfl
  have hdot : addSegments false [] (['.'] :: [] :: next :: more)
      = addSegments false [] ([] :: next :: more) := rfl
  unfold readSegments
  rw [hsplit, List.reverse_nil, hdot, addSegments_of_isNormal h]
  simp

theorem head?_join_iff {first : Text} {more : List Text} (hfirst : '/' ∉ first) :
    (Text.join ['/'] (first :: more)).head? = some '/' ↔ first = [] ∧ more ≠ [] := by
  cases first with
  | nil => cases more <;> simp [Text.join]
  | cons c cs =>
    have hc : c ≠ '/' := fun heq => hfirst (heq ▸ List.mem_cons_self)
    rw [join_cons_cons]
    simpa using hc

theorem head?_join_append {segments : List Text} {tail : Text}
    (h : ∀ segment ∈ segments, IsNormalSegment false false segment)
    (hfirst : ∀ next more, segments ≠ [] :: next :: more) (htail : IsTail tail) :
    (Text.join ['/'] segments ++ tail).head? ≠ some '/' := by
  have hslash : tail.head? ≠ some '/' := fun hmem => by
    rcases htail '/' hmem with heq | heq <;> exact absurd heq (by decide)
  cases segments with
  | nil => exact hslash
  | cons segment rest =>
    have hsegment : '/' ∉ segment := fun hmem =>
      absurd ((h _ List.mem_cons_self).isSlash_of_mem '/' hmem) (by decide)
    rw [List.head?_append]
    cases hjoin : (Text.join ['/'] (segment :: rest)).head? with
    | none => exact hslash
    | some c =>
      rw [Option.some_or, ← hjoin]
      intro hhead
      obtain ⟨rfl, hrest⟩ := (head?_join_iff hsegment).1 hhead
      obtain ⟨next, more, rfl⟩ := List.exists_cons_of_ne_nil hrest
      exact hfirst next more rfl

/-- The text of a URL without a host: a path that would read as a host is set off by a dot. -/
theorem IsHostless.toText_eq {url : Url} (h : url.IsHostless) :
    (∃ next more, url.path = .segments ([] :: next :: more)
        ∧ url.toText = url.scheme ++ ':' :: '/' :: ('.' :: url.pathText
          ++ tailText url.query url.fragment))
      ∨ (∀ next more, url.path ≠ .segments ([] :: next :: more))
        ∧ url.toText = url.scheme ++ ':' :: (url.pathText ++ tailText url.query url.fragment) := by
  unfold toText tailText
  rw [h.host]
  split
  · next heq => cases heq
  · next next more _ hpath =>
    refine .inl ⟨next, more, hpath, ?_⟩
    simp
  · next hfirst =>
    refine .inr ⟨fun next more hpath => hfirst next more hpath, ?_⟩
    simp

theorem readOther_rooted {url : Url} (h : url.IsNormalRooted) :
    ∃ rest, url.toText = url.scheme ++ ':' :: rest ∧ readOther url.scheme rest = .ok url := by
  obtain ⟨segments, hsegments, hne, hnormal⟩ := h.path
  have htail := isTail_tailText url.query url.fragment
  have hurl := h.ofPath_eq
  have hpath : IsNormalPath false false segments := ⟨fun _ => hne, hnormal⟩
  have hchars : ∀ c ∈ (UrlPath.segments segments).toText, c ≠ '?' ∧ c ≠ '#' :=
    fun c hc => ne_of_isSegmentChar (isSegmentChar_of_mem_toText hpath c hc)
  rw [hsegments] at hurl
  rcases h.toText_eq with ⟨next, more, hfirst, htext⟩ | ⟨hfirst, htext⟩
  · obtain rfl : segments = [] :: next :: more := UrlPath.segments.inj (hsegments.symm.trans hfirst)
    refine ⟨_, htext, ?_⟩
    rw [pathText_eq hsegments, readOther_slash (by simp),
      cutPath_append (List.forall_mem_cons.2 ⟨by decide, hchars⟩) htail, readSegments_dot hnormal,
      hurl]
  · refine ⟨_, htext, ?_⟩
    have hfirst' : ∀ next more, segments ≠ [] :: next :: more :=
      fun next more heq => hfirst next more (heq ▸ hsegments)
    have hjoin : ∀ c ∈ Text.join ['/'] segments, c ≠ '?' ∧ c ≠ '#' := by
      rw [toText_segments hne] at hchars
      exact (List.forall_mem_cons.1 hchars).2
    rw [pathText_eq hsegments, toText_segments hne, List.cons_append,
      readOther_slash (head?_join_append hnormal hfirst' htail), cutPath_append hjoin htail,
      readSegments_join hne hnormal, hurl]

theorem IsNormalFlat.exists_toText_eq {url : Url} (h : url.IsNormalFlat) :
    ∃ text, url.path = .flat text
      ∧ url.toText = url.scheme ++ ':' :: (text ++ tailText url.query url.fragment) := by
  obtain ⟨text, hpath, -⟩ := h.path
  refine ⟨text, hpath, ?_⟩
  rcases h.toText_eq with ⟨next, more, hfirst, -⟩ | ⟨-, htext⟩
  · rw [hpath] at hfirst
    cases hfirst
  · rw [htext, pathText, hpath]
    rfl

theorem readOther_flat {url : Url} (h : url.IsNormalFlat) :
    ∃ rest, url.toText = url.scheme ++ ':' :: rest ∧ readOther url.scheme rest = .ok url := by
  obtain ⟨text, htextPath, htext⟩ := h.exists_toText_eq
  obtain ⟨_, hsame, hplain, hchars, hhead, -⟩ := h.path
  obtain rfl := UrlPath.flat.inj (htextPath.symm.trans hsame)
  have htail := isTail_tailText url.query url.fragment
  have hurl := h.ofPath_eq
  rw [htextPath] at hurl
  refine ⟨_, htext, ?_⟩
  have hslash : (text ++ tailText url.query url.fragment).head? ≠ some '/' := by
    cases text with
    | nil =>
      intro heq
      rcases htail '/' heq with heq | heq <;> exact absurd heq (by decide)
    | cons c cs => exact hhead
  rw [readOther_of_head? hslash, cutPath_append hchars htail, percentEncode_of_isPlain hplain, hurl]

end HubRules.Url
