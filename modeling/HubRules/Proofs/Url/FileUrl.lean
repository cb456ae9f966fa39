import HubRules.Proofs.Url.Authority

/-!
# URLs of files

The URL of a file is of a normal form (`readFile_isNormal`): its path has no empty segments at its
start, and its host is empty where the path has a drive letter. Such a URL is read back from its
text (`readFile_toText`).
-/

namespace HubRules.Url

open Text

/-- A host that a file may lie on; that of the own machine is left out. -/
def IsFileHost (host : Host) : Prop :=
  host = .domain [] ∨ host.IsNormal ∧ host ≠ .domain "localhost".toList

/-- A URL of a file that stays as it is. -/
structure IsNormalFile (url : Url) : Prop where
  scheme : url.scheme = fileScheme
  bare : url.username = [] ∧ url.password = [] ∧ url.port = none
  place : ∃ host segments, url.host = some host ∧ url.path = .segments segments
    ∧ IsFileHost host ∧ (segments.any isDriveLetter → host = .domain [])
    ∧ IsNormalPath true true segments ∧ dropLeadingEmpty segments = segments
  tail : IsNormalTail true url.query url.fragment

def ofFile (host : Host) (text : Text) : Url :=
  withTail true ⟨fileScheme, [], [],
    some (if (readSegments true true [] (cutPath text).1).any isDriveLetter then .domain []
      else host),
    none, .segments (dropLeadingEmpty (readSegments true true [] (cutPath text).1)), none, none⟩
    (cutPath text).2

/-! ## Empty segments -/

theorem dropLeadingEmpty_cons_nil (segments : List Text) :
    dropLeadingEmpty ([] :: segments) = dropLeadingEmpty segments := rfl

theorem dropLeadingEmpty_cases (segments : List Text) :
    dropLeadingEmpty segments = [[]]
      ∨ ∃ segment rest, segment ≠ [] ∧ dropLeadingEmpty segments = segment :: rest
        ∧ (segment :: rest) <:+ segments := by
  induction segments with
  | nil => exact .inl rfl
  | cons segment rest ih =>
    cases segment with
    | nil =>
      rw [dropLeadingEmpty_cons_nil]
      refine ih.imp_right ?_
      rintro ⟨first, more, hne, heq, hsuffix⟩
      exact ⟨first, more, hne, heq, hsuffix.trans (List.suffix_cons _ _)⟩
    | cons c cs => exact .inr ⟨c :: cs, rest, by simp, rfl, List.suffix_refl _⟩

theorem dropLeadingEmpty_dropLeadingEmpty (segments : List Text) :
    dropLeadingEmpty (dropLeadingEmpty segments) = dropLeadingEmpty segments := by
  rcases dropLeadingEmpty_cases segments with heq | ⟨segment, rest, hne, heq, -⟩
  · rw [heq]
    rfl
  · rw [heq]
    cases segment with
    | nil => exact absurd rfl hne
    | cons c cs => rfl

theorem mem_of_mem_dropLeadingEmpty {segments : List Text} {segment : Text}
    (h : segment ∈ dropLeadingEmpty segments) : segment = [] ∨ segment ∈ segments := by
  rcases dropLeadingEmpty_cases segments with heq | ⟨first, rest, -, heq, hsuffix⟩
  · rw [heq] at h
    exact .inl (List.mem_singleton.1 h)
  · rw [heq] at h
    exact .inr (hsuffix.subset h)

theorem dropLeadingEmpty_ne_nil (segments : List Text) : dropLeadingEmpty segments ≠ [] := by
  rcases dropLeadingEmpty_cases segments with heq | ⟨first, rest, -, heq, -⟩ <;> rw [heq] <;> simp

/-! ## What is read -/

theorem ofFile_isNormal {host : Host} (h : IsFileHost host) (text : Text) :
    (ofFile host text).IsNormalFile := by
  have hpath : IsNormalPath true true (readSegments true true [] (cutPath text).1) :=
    readSegments_isNormal (by simp) _
  generalize hsegments : readSegments true true [] (cutPath text).1 = segments at hpath
  refine ⟨rfl, ⟨rfl, rfl, rfl⟩, ⟨_, _, rfl, rfl, ?_, ?_, ?_, dropLeadingEmpty_dropLeadingEmpty _⟩,
    readTail_isNormal _ _⟩
  · split
    · exact .inl rfl
    · exact h
  · intro hdrive
    rw [if_pos]
    obtain ⟨segment, hmem, hletter⟩ := List.any_eq_true.1 hdrive
    refine List.any_eq_true.2 ⟨segment, ?_, hletter⟩
    rcases mem_of_mem_dropLeadingEmpty hmem with rfl | hmem
    · exact absurd hletter (by decide)
    · exact hmem
  · rw [hsegments]
    refine ⟨fun _ => dropLeadingEmpty_ne_nil segments, fun segment hmem => ?_⟩
    rcases mem_of_mem_dropLeadingEmpty hmem with rfl | hmem
    · exact isNormalSegment_nil
    · exact hpath.segments segment hmem

theorem ofFile_bare (text : Text) : ofFile (.domain []) text = withTail true ⟨fileScheme, [], [],
    some (.domain []), none,
    .segments (dropLeadingEmpty (readSegments true true [] (cutPath text).1)), none, none⟩
    (cutPath text).2 := by
  unfold ofFile
  rw [ite_self]

theorem readFile_eq_ok {text : Text} {url : Url} (h : readFile text = .ok url) :
    ∃ host below, IsFileHost host ∧ url = ofFile host below := by
  unfold readFile at h
  simp only [bind, Except.bind, pure, Except.pure] at h
  split at h
  · split at h
    · split at h
      · exact ⟨.domain [], _, .inl rfl, (Except.ok.inj h).symm⟩
      · split at h
        · exact ⟨.domain [], _, .inl rfl, (Except.ok.inj h).symm⟩
        · split at h
          · exact absurd h (by simp)
          · next hread =>
            refine ⟨_, _, ?_, (Except.ok.inj h).symm⟩
            split
            · exact .inl rfl
            · next hne => exact .inr ⟨Host.ofSpecial_isNormal hread, hne⟩
    · next a b rest _ =>
      exact ⟨.domain [], a :: b :: rest, .inl rfl,
        (Except.ok.inj h).symm.trans (ofFile_bare _).symm⟩
  · exact ⟨.domain [], _, .inl rfl, (Except.ok.inj h).symm.trans (ofFile_bare _).symm⟩

theorem readFile_isNormal {text : Text} {url : Url} (h : readFile text = .ok url) :
    url.IsNormalFile := by
  obtain ⟨host, below, hhost, rfl⟩ := readFile_eq_ok h
  exact ofFile_isNormal hhost below

/-! ## Files and their texts -/

theorem IsFileHost.isHostChar_of_mem {host : Host} (h : IsFileHost host) :
    ∀ c ∈ host.toText, Host.isHostChar c := by
  rcases h with rfl | ⟨hnormal, -⟩
  · exact fun c hc => absurd hc List.not_mem_nil
  · exact Host.isHostChar_of_mem_toText hnormal

/-- No host is written like a drive letter. -/
theorem IsFileHost.not_driveLetter {host : Host} (h : IsFileHost host) :
    isDriveLetter host.toText = false := by
  rw [Bool.eq_false_iff]
  intro hletter
  obtain ⟨a, b, htext, ha, hb⟩ := isDriveLetter_iff.1 hletter
  rcases h with rfl | ⟨hnormal, -⟩
  · cases htext
  · -- a name holds neither a colon nor a bar, and an address in brackets begins with one
    have hmem : b ∈ host.toText := by
      rw [htext]
      simp
    have hforbidden : Host.isForbidden b := by rcases hb with rfl | rfl <;> decide
    cases host with
    | domain name => exact absurd hforbidden (ne_true_of_eq_false (hnormal.2.1 b hmem))
    | ipv4 address =>
      exact absurd hforbidden (ne_true_of_eq_false (Host.isKept_of_mem_ipv4 hmem).1)
    | ipv6 pieces =>
      obtain rfl := (List.cons.inj htext).1
      exact absurd ha (by decide)

theorem readFile_append {host : Host} {rest : Text} (h : IsFileHost host)
    (hrest : IsBehindHost rest) :
    readFile ('/' :: '/' :: (host.toText ++ rest)) = .ok (ofFile host rest) := by
  have hinside : ∀ c ∈ host.toText, (!endsAuthority true c) = true := by
    intro c hc
    rw [endsAuthority_of_isHostChar (h.isHostChar_of_mem c hc)]
    rfl
  have hstop : ∀ c ∈ rest.head?, (!endsAuthority true c) = false := by
    intro c hc
    rcases hrest c hc with rfl | rfl | rfl <;> rfl
  have hslashes : (isSlash true '/' && isSlash true '/') = true := rfl
  unfold readFile
  simp only [hslashes, takeWhile_append_stop hinside hstop, dropWhile_append_stop hinside hstop,
    h.not_driveLetter, if_true, Bool.false_eq_true, if_false]
  rcases h with rfl | ⟨hnormal, hlocal⟩
  · rfl
  · rw [if_neg (by simpa using Host.toText_ne_nil hnormal), Host.ofSpecial_toText hnormal]
    simp only [bind, Except.bind, pure, Except.pure, if_neg hlocal]
    rfl

namespace IsNormalFile

variable {url : Url}

theorem exists_toText_eq (h : url.IsNormalFile) :
    ∃ host, IsFileHost host ∧ IsBehindHost (url.pathText ++ tailText url.query url.fragment)
      ∧ url.toText = fileScheme ++ ':' :: '/' :: '/'
        :: (host.toText ++ (url.pathText ++ tailText url.query url.fragment))
      ∧ ofFile host (url.pathText ++ tailText url.query url.fragment) = url := by
  obtain ⟨host, segments, hhost, hsegments, hfile, hdrive, hpath, hempty⟩ := h.place
  refine ⟨host, hfile, ?_, ?_, ?_⟩
  · rw [pathText_eq hsegments]
    exact isBehindHost_toText (isTail_tailText _ _)
  · unfold toText
    rw [hhost, h.scheme, hostPortText_eq hhost, h.bare.2.2]
    unfold userText tailText portText
    rw [h.bare.1, h.bare.2.1]
    simp
  · have hne := hpath.nonempty rfl
    have hcut := cutPath_append
      (fun c hc => ne_of_isSegmentChar (isSegmentChar_of_mem_toText hpath c hc))
      (isTail_tailText url.query url.fragment)
    -- the slash in front of the path is read as an empty segment
    have hread : readSegments true true [] (UrlPath.segments segments).toText = [] :: segments := by
      have hjoin : (UrlPath.segments segments).toText = Text.join ['/'] ([] :: segments) := by
        rw [toText_segments hne]
        obtain ⟨first, rest, rfl⟩ := List.exists_cons_of_ne_nil hne
        rfl
      rw [hjoin]
      exact readSegments_join (by simp)
        (List.forall_mem_cons.2 ⟨isNormalSegment_nil, hpath.segments⟩)
    have hplace : (if ([] :: segments).any isDriveLetter then Host.domain [] else host) = host := by
      split
      · next hany =>
        refine (hdrive ?_).symm
        simpa [isDriveLetter] using hany
      · rfl
    unfold ofFile withTail
    rw [pathText_eq hsegments, hcut]
    simp only [hread, hplace, dropLeadingEmpty_cons_nil, hempty, readTail_tailText h.tail]
    obtain ⟨hname, hword, hport⟩ := h.bare
    have hscheme := h.scheme
    cases url
    simp_all

theorem lt_of_mem_toText (h : url.IsNormalFile) : ∀ c ∈ url.toText, 32 < c.toNat := by
  obtain ⟨_, segments, -, hsegments, -, -, hpath, -⟩ := h.place
  obtain ⟨host, hfile, -, htext, -⟩ := h.exists_toText_eq
  have hstart : ∀ c ∈ fileScheme ++ "://".toList, 32 < c.toNat := by decide
  intro c hc
  have hc : c ∈ (fileScheme ++ "://".toList)
      ++ (host.toText ++ (url.pathText ++ tailText url.query url.fragment)) := by
    rw [htext] at hc
    simpa using hc
  rcases List.mem_append.1 hc with hc | hc
  · exact hstart c hc
  · rcases List.mem_append.1 hc with hc | hc
    · exact Host.lt_of_isHostChar (hfile.isHostChar_of_mem c hc)
    · rcases List.mem_append.1 hc with hc | hc
      · rw [pathText_eq hsegments] at hc
        exact lt_of_mem_segments hpath.segments c hc
      · exact lt_of_mem_tailText h.tail c hc

end IsNormalFile

theorem readFile_toText {url : Url} (h : url.IsNormalFile) :
    ∃ rest, url.toText = fileScheme ++ ':' :: rest ∧ readFile rest = .ok url := by
  obtain ⟨host, hfile, hbehind, htext, hurl⟩ := h.exists_toText_eq
  exact ⟨_, htext, (readFile_append hfile hbehind).trans (congrArg _ hurl)⟩

end HubRules.Url
