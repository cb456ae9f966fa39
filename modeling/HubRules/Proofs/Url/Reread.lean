import HubRules.Proofs.Url.FileUrl
import HubRules.Proofs.Url.OtherUrl
import HubRules.Proofs.Url.Scheme

/-!
# Reading the text of a URL

Every URL that is read, be it absolute or relative to one with an authority, is of one of four
normal forms (`read_isStable`). The text of such a URL is read as the URL again, whatever the base
(`read_toText`). So a text that was resolved against a base stays as it is (`join_toText`).
-/

namespace HubRules.Url

open Text

/-- A URL that stays as it is when its text is read. -/
inductive IsStable (url : Url) : Prop where
  | authority (hscheme : IsNormalScheme url.scheme) (hfile : url.scheme ≠ fileScheme)
      (h : url.IsNormalAuthority) : IsStable url
  | file (h : url.IsNormalFile) : IsStable url
  | rooted (hscheme : IsNormalScheme url.scheme) (hspecial : isSpecialScheme url.scheme = false)
      (h : url.IsNormalRooted) : IsStable url
  | flat (hscheme : IsNormalScheme url.scheme) (hspecial : isSpecialScheme url.scheme = false)
      (h : url.IsNormalFlat) : IsStable url

theorem fileScheme_isNormal : IsNormalScheme fileScheme where
  head := ⟨'f', "ile".toList, rfl, rfl⟩
  chars := by decide
  lower := by decide

theorem ne_fileScheme {scheme : Text} (h : isSpecialScheme scheme = false) :
    scheme ≠ fileScheme := by
  rintro rfl
  exact absurd h (by decide)

/-! ## Blanks -/

theorem lt_of_mem_scheme_append {scheme rest : Text} (h : IsNormalScheme scheme)
    (hrest : ∀ c ∈ rest, 32 < c.toNat) : ∀ c ∈ scheme ++ ':' :: rest, 32 < c.toNat := by
  intro c hc
  rcases List.mem_append.1 hc with hc | hc
  · exact h.lt_of_mem c hc
  · rcases List.mem_cons.1 hc with rfl | hc
    · decide
    · exact hrest c hc

theorem IsNormalRooted.lt_of_mem_toText {url : Url} (hscheme : IsNormalScheme url.scheme)
    (h : url.IsNormalRooted) : ∀ c ∈ url.toText, 32 < c.toNat := by
  obtain ⟨segments, hsegments, -, hnormal⟩ := h.path
  have hbody : ∀ c ∈ url.pathText ++ tailText url.query url.fragment, 32 < c.toNat := by
    intro c hc
    rw [pathText_eq hsegments] at hc
    exact (List.mem_append.1 hc).elim (lt_of_mem_segments hnormal c) (lt_of_mem_tailText h.tail c)
  rcases h.toText_eq with ⟨next, more, -, htext⟩ | ⟨-, htext⟩
  · rw [htext]
    exact lt_of_mem_scheme_append hscheme
      (List.forall_mem_cons.2 ⟨by decide, List.forall_mem_cons.2 ⟨by decide, hbody⟩⟩)
  · rw [htext]
    exact lt_of_mem_scheme_append hscheme hbody

theorem IsNormalFlat.clean_toText {url : Url} (hscheme : IsNormalScheme url.scheme)
    (h : url.IsNormalFlat) : clean url.toText = url.toText := by
  obtain ⟨text, htextPath, htext⟩ := h.exists_toText_eq
  obtain ⟨_, hsame, hplain, -, -, hlast⟩ := h.path
  obtain rfl := UrlPath.flat.inj (htextPath.symm.trans hsame)
  obtain ⟨first, rest, hstart, -⟩ := hscheme.head
  rw [htext]
  refine clean_of_edges (fun c hc => ?_) (fun c hc => ?_) fun c hc => ?_
  · rcases List.mem_append.1 hc with hc | hc
    · exact Nat.le_of_lt (hscheme.lt_of_mem c hc)
    · rcases List.mem_cons.1 hc with rfl | hc
      · decide
      · rcases List.mem_append.1 hc with hc | hc
        · exact (lt_of_isPlain (hplain c hc)).1
        · exact Nat.le_of_lt (lt_of_mem_tailText h.tail c hc)
  · rw [hstart] at hc
    obtain rfl := Option.some.inj hc
    exact hscheme.lt_of_mem _ (hstart ▸ List.mem_cons_self)
  · have hc : ((tailText url.query url.fragment).getLast?.or (text.getLast?.or (some ':')))
        = some c := by
      have heq : url.scheme ++ ':' :: (text ++ tailText url.query url.fragment)
          = url.scheme ++ [':'] ++ text ++ tailText url.query url.fragment := by simp
      rwa [heq, List.getLast?_append, List.getLast?_append, List.getLast?_concat] at hc
    cases htail : (tailText url.query url.fragment).getLast? with
    | some d =>
      rw [htail, Option.some_or] at hc
      exact lt_of_mem_tailText h.tail c (List.mem_of_getLast? (htail.trans hc))
    | none =>
      obtain ⟨hquery, hfragment⟩ := eq_none_of_tailText (List.getLast?_eq_none_iff.1 htail)
      rw [htail, Option.none_or] at hc
      cases hend : text.getLast? with
      | some d =>
        rw [hend, Option.some_or] at hc
        exact hlast hquery hfragment c (hend.trans hc)
      | none =>
        rw [hend, Option.none_or] at hc
        rw [← Option.some.inj hc]
        decide

theorem IsStable.clean_toText {url : Url} (h : url.IsStable) : clean url.toText = url.toText := by
  cases h with
  | authority hscheme hfile h =>
    rw [h.toText_eq]
    exact clean_of_all (lt_of_mem_scheme_append hscheme (List.forall_mem_cons.2
      ⟨by decide, List.forall_mem_cons.2 ⟨by decide, h.lt_of_mem_behindSlashes⟩⟩))
  | file h => exact clean_of_all h.lt_of_mem_toText
  | rooted hscheme hspecial h => exact clean_of_all (h.lt_of_mem_toText hscheme)
  | flat hscheme hspecial h => exact h.clean_toText hscheme

/-! ## Reading back -/

theorem read_toText (base : Option Url) {url : Url} (h : url.IsStable) :
    read base url.toText = .ok url := by
  unfold read
  dsimp only
  rw [h.clean_toText]
  cases h with
  | authority hscheme hfile h =>
    rw [h.toText_eq, hscheme.readScheme_append]
    dsimp only
    rw [if_neg hfile]
    cases hspecial : isSpecialScheme url.scheme with
    | false => exact readAuthority_behindSlashes h
    | true =>
      have hread := readAuthority_behindSlashes h
      rw [← h.dropWhile_slashes hspecial] at hread
      rw [if_pos rfl]
      cases base with
      | none => exact hread
      | some base =>
        -- there are two slashes, so nothing is taken from the base
        have hslashes : decide ((('/' :: '/' :: url.behindSlashes).takeWhile
            (isSlash true)).length < 2) = false := by
          simp [isSlash]
        dsimp only
        rw [hslashes]
        exact hread
  | file h =>
    obtain ⟨rest, htext, hread⟩ := readFile_toText h
    rw [htext, fileScheme_isNormal.readScheme_append]
    exact hread
  | rooted hscheme hspecial h =>
    obtain ⟨rest, htext, hread⟩ := readOther_rooted h
    rw [htext, hscheme.readScheme_append]
    dsimp only
    rw [if_neg (ne_fileScheme hspecial), if_neg (ne_true_of_eq_false hspecial)]
    exact hread
  | flat hscheme hspecial h =>
    obtain ⟨rest, htext, hread⟩ := readOther_flat h
    rw [htext, hscheme.readScheme_append]
    dsimp only
    rw [if_neg (ne_fileScheme hspecial), if_neg (ne_true_of_eq_false hspecial)]
    exact hread

/-! ## What is read -/

namespace IsNormalAuthority

variable {base : Url}

theorem withFragment_isNormal (h : base.IsNormalAuthority) {fragment : Option Text}
    (hfragment : ∀ text ∈ fragment, IsPlain inFragment text) :
    IsNormalAuthority { base with fragment } :=
  { h with tail := ⟨h.tail.query, hfragment⟩ }

theorem withTail_isNormal (h : base.IsNormalAuthority) (text : Text) :
    (withTail (isSpecialScheme base.scheme) base text).IsNormalAuthority :=
  { h with tail := readTail_isNormal (isSpecialScheme base.scheme) text }

theorem withPath_isNormal (h : base.IsNormalAuthority) {segments : List Text}
    (hpath : IsNormalPath (isSpecialScheme base.scheme) false segments) :
    IsNormalAuthority { base with path := .segments segments } :=
  { h with path := ⟨segments, rfl, hpath⟩ }

theorem directory_isNormal (h : base.IsNormalAuthority) :
    ∀ segment ∈ directory base.path,
      IsNormalSegment (isSpecialScheme base.scheme) false segment := by
  obtain ⟨segments, hsegments, hpath⟩ := h.path
  rw [hsegments]
  exact fun segment hmem => hpath.segments segment (List.dropLast_subset _ hmem)

end IsNormalAuthority

theorem readRelative_isNormal {base url : Url} {text : Text} (hfile : base.scheme ≠ fileScheme)
    (hbase : base.IsNormalAuthority) (h : readRelative base text = .ok url) :
    url.scheme = base.scheme ∧ url.IsNormalAuthority := by
  have hbelow : ∀ folder : List Text,
      (∀ segment ∈ folder, IsNormalSegment (isSpecialScheme base.scheme) false segment) →
      ∀ path tail, (withTail (isSpecialScheme base.scheme) { base with
        path := .segments (readSegments (isSpecialScheme base.scheme) false folder path) }
          tail).IsNormalAuthority :=
    fun folder hfolder path tail =>
      (hbase.withPath_isNormal (readSegments_isNormal hfolder path)).withTail_isNormal tail
  unfold readRelative at h
  simp only [hfile, decide_false] at h
  split at h
  · obtain rfl := Except.ok.inj h
    exact ⟨rfl, hbase.withFragment_isNormal (by simp)⟩
  · obtain rfl := Except.ok.inj h
    exact ⟨rfl, hbase.withFragment_isNormal (by simpa using readFragment_isPlain _)⟩
  · obtain rfl := Except.ok.inj h
    exact ⟨rfl, hbase.withTail_isNormal _⟩
  · exact readAuthority_isNormal h
  · split at h
    · split at h
      · exact readAuthority_isNormal h
      · obtain rfl := Except.ok.inj h
        exact ⟨rfl, hbelow [] (by simp) _ _⟩
    · obtain rfl := Except.ok.inj h
      exact ⟨rfl, hbelow _ hbase.directory_isNormal _ _⟩

theorem readOther_isStable {scheme text : Text} {url : Url} (hscheme : IsNormalScheme scheme)
    (hspecial : isSpecialScheme scheme = false) (hlast : ∀ c ∈ text.getLast?, 32 < c.toNat)
    (h : readOther scheme text = .ok url) : url.IsStable := by
  by_cases hslash : text.head? = some '/'
  · obtain ⟨rest, rfl⟩ : ∃ rest, text = '/' :: rest := by
      cases text with
      | nil => cases hslash
      | cons c cs => exact ⟨cs, by rw [Option.some.inj hslash]⟩
    by_cases hsecond : rest.head? = some '/'
    · obtain ⟨more, rfl⟩ : ∃ more, rest = '/' :: more := by
        cases rest with
        | nil => cases hsecond
        | cons c cs => exact ⟨cs, by rw [Option.some.inj hsecond]⟩
      obtain ⟨rfl, hurl⟩ := readAuthority_isNormal h
      exact .authority hscheme (ne_fileScheme hspecial) hurl
    · rw [readOther_slash hsecond] at h
      obtain rfl := Except.ok.inj h
      exact .rooted hscheme hspecial (rooted_isNormal scheme _ _)
  · rw [readOther_of_head? hslash] at h
    obtain rfl := Except.ok.inj h
    exact .flat hscheme hspecial (flat_isNormal hslash hlast)

theorem read_isStable {base : Option Url} {text : Text} {url : Url}
    (hbase : ∀ b ∈ base, IsNormalScheme b.scheme ∧ b.scheme ≠ fileScheme ∧ b.IsNormalAuthority)
    (h : read base text = .ok url) : url.IsStable := by
  have hrelative : ∀ b ∈ base, ∀ rest, readRelative b rest = .ok url → url.IsStable := by
    intro b hb rest hread
    obtain ⟨hscheme, hfile, hnormal⟩ := hbase b hb
    obtain ⟨heq, hurl⟩ := readRelative_isNormal hfile hnormal hread
    exact .authority (heq ▸ hscheme) (heq ▸ hfile) hurl
  unfold read at h
  dsimp only at h
  split at h
  · next scheme rest hread =>
    obtain ⟨hscheme, hrest⟩ := readScheme_eq_some hread
    split at h
    · exact .file (readFile_isNormal h)
    · next hfile =>
      have hauthority : ∀ behind, readAuthority scheme behind = .ok url → url.IsStable := by
        intro behind hread
        obtain ⟨rfl, hurl⟩ := readAuthority_isNormal hread
        exact .authority hscheme hfile hurl
      split at h
      · split at h
        · next b =>
          split at h
          · exact hrelative b rfl _ h
          · exact hauthority _ h
        · exact hauthority _ h
      · next hspecial =>
        refine readOther_isStable hscheme (Bool.eq_false_iff.2 hspecial) (fun c hc => ?_) h
        obtain ⟨before, htext⟩ := (List.suffix_cons ':' rest).trans hrest
        have hclean : (clean text).getLast? = some c := by
          rw [← htext, List.getLast?_append, Option.mem_def.1 hc]
          rfl
        exact getLast?_clean c hclean
  · split at h
    · cases h
    · next b =>
      split at h
      · next hflat _ =>
        obtain ⟨segments, hsegments, -⟩ := (hbase b rfl).2.2.path
        rw [hsegments] at hflat
        cases hflat
      · cases h
      · exact hrelative b rfl _ h

theorem scheme_parse {scheme rest : Text} {url : Url} (hscheme : IsNormalScheme scheme)
    (h : parse (scheme ++ ':' :: rest) = .ok url) : url.scheme = scheme := by
  have hstart : ∀ c ∈ scheme ++ [':'], 32 < c.toNat := lt_of_mem_scheme_append hscheme (by simp)
  obtain ⟨behind, hclean⟩ := exists_clean_append (by simp) hstart rest
  rw [List.append_assoc, List.append_assoc] at hclean
  unfold parse read at h
  dsimp only at h
  rw [← List.singleton_append, hclean, List.singleton_append, hscheme.readScheme_append] at h
  dsimp only at h
  split at h
  · next hfile =>
    rw [(readFile_isNormal h).scheme, hfile]
  · split at h
    · exact (readAuthority_isNormal h).1
    · exact scheme_readOther h

/-- A URL of a special scheme has an authority, those of files apart. -/
theorem IsStable.isNormalAuthority {url : Url} (h : url.IsStable)
    (hfile : url.scheme ≠ fileScheme) (hspecial : isSpecialScheme url.scheme) :
    IsNormalScheme url.scheme ∧ url.IsNormalAuthority := by
  cases h with
  | authority hscheme _ h => exact ⟨hscheme, h⟩
  | file h => exact absurd h.scheme hfile
  | rooted _ hnot _ => exact absurd hspecial (ne_true_of_eq_false hnot)
  | flat _ hnot _ => exact absurd hspecial (ne_true_of_eq_false hnot)

/-- A text that was resolved against a URL of a special scheme stays as it is, whatever it is
resolved against. -/
theorem join_toText {text path : Text} {base url : Url} (hbase : parse text = .ok base)
    (hfile : base.scheme ≠ fileScheme) (hspecial : isSpecialScheme base.scheme)
    (h : base.join path = .ok url) (other : Url) : other.join url.toText = .ok url := by
  have hstable := (read_isStable (by simp) hbase).isNormalAuthority hfile hspecial
  refine read_toText (some other) (read_isStable (fun b hb => ?_) h)
  obtain rfl := Option.some.inj hb
  exact ⟨hstable.1, hfile, hstable.2⟩

end HubRules.Url
