import HubRules.Helper.UrlPath
import HubRules.Proofs.Url.Reread

/-!
# What the path of a text is

The texts that are their own path are those that begin with one slash and no second one
(`path_eq_self_iff`). The path of a text is such a text unless the text is a URL whose path has no
first slash or a doubled one. So taking the path a second time changes nothing, except there
(`path_settles_iff`).
-/

namespace HubRules

open Text

namespace Url

/-- Whether the path of a URL has no first slash: it is one flat text, or it has no segment. Only
the URLs that need no host are like this. -/
def IsRootless (url : Url) : Prop :=
  isSpecialScheme url.scheme = false ∧ ((∃ text, url.path = .flat text) ∨ url.path = .segments [])

/-- Whether the path of a URL begins with two slashes: its first segment is empty, and another one
follows. -/
def IsDoubled (url : Url) : Prop := ∃ next more, url.path = .segments ([] :: next :: more)

variable {url : Url} {text : Text}

/-! ## Paths of URLs -/

/-- The path of a URL that is read is one flat text that is encoded, or has no segment, or at least
one. Only URLs of special schemes always have a segment. -/
theorem IsStable.path_cases (h : url.IsStable) :
    (∃ text, url.path = .flat text ∧ isSpecialScheme url.scheme = false
        ∧ IsPlain (fun _ => false) text ∧ text.head? ≠ some '/')
      ∨ (url.path = .segments [] ∧ isSpecialScheme url.scheme = false)
      ∨ ∃ first more, url.path = .segments (first :: more) ∧ '/' ∉ first := by
  have hsegments : ∀ {special file : Bool} {segments : List Text},
      url.path = .segments segments → IsNormalPath special file segments → segments ≠ [] →
      ∃ first more, url.path = .segments (first :: more) ∧ '/' ∉ first := by
    intro special file segments hpath hnormal hne
    obtain ⟨first, more, rfl⟩ := List.exists_cons_of_ne_nil hne
    refine ⟨first, more, hpath, fun hmem => ?_⟩
    have hslash := (hnormal.segments first List.mem_cons_self).isSlash_of_mem '/' hmem
    exact absurd hslash (by cases special <;> decide)
  cases h with
  | authority hscheme hfile h =>
    obtain ⟨segments, hpath, hnormal⟩ := h.path
    by_cases hnil : segments = []
    · refine .inr (.inl ⟨by rw [hpath, hnil], ?_⟩)
      rw [Bool.eq_false_iff]
      exact fun hspecial => hnormal.nonempty hspecial hnil
    · exact .inr (.inr (hsegments hpath hnormal hnil))
  | file h =>
    obtain ⟨host, segments, -, hpath, -, -, hnormal, -⟩ := h.place
    exact .inr (.inr (hsegments hpath hnormal (hnormal.nonempty rfl)))
  | rooted hscheme hspecial h =>
    obtain ⟨segments, hpath, hne, hnormal⟩ := h.path
    exact .inr (.inr (hsegments hpath ⟨fun _ => hne, hnormal⟩ hne))
  | flat hscheme hspecial h =>
    obtain ⟨text, hpath, hplain, -, hhead, -⟩ := h.path
    exact .inl ⟨text, hpath, hspecial, hplain, hhead⟩

/-- The text of a path without a first slash is encoded and begins with no other slash. Every other
path begins with one slash, or with two if it is doubled. -/
theorem IsStable.pathText_cases (h : url.IsStable) :
    (url.IsRootless ∧ IsPlain (fun _ => false) url.pathText ∧ url.pathText.head? ≠ some '/')
      ∨ (¬url.IsRootless
        ∧ ∃ rest, url.pathText = '/' :: rest ∧ (rest.head? = some '/' ↔ url.IsDoubled)) := by
  rcases h.path_cases with ⟨text, hpath, hspecial, htext⟩ | ⟨hpath, hspecial⟩
      | ⟨first, more, hpath, hfirst⟩
  · refine .inl ⟨⟨hspecial, .inl ⟨text, hpath⟩⟩, ?_⟩
    rw [pathText, hpath]
    exact htext
  · refine .inl ⟨⟨hspecial, .inr hpath⟩, ?_⟩
    rw [pathText, hpath]
    exact ⟨List.forall_mem_nil _, by simp [UrlPath.toText]⟩
  · have htext := (pathText_eq hpath).trans (toText_segments (List.cons_ne_nil first more))
    refine .inr ⟨?_, _, htext, ?_⟩
    · rintro ⟨-, ⟨flat, hflat⟩ | hnil⟩
      · cases hpath.symm.trans hflat
      · cases hpath.symm.trans hnil
    · rw [head?_join_iff hfirst]
      constructor
      · rintro ⟨rfl, hne⟩
        obtain ⟨next, others, rfl⟩ := List.exists_cons_of_ne_nil hne
        exact ⟨next, others, hpath⟩
      · rintro ⟨next, others, hdoubled⟩
        obtain ⟨rfl, rfl⟩ := List.cons.inj (UrlPath.segments.inj (hpath.symm.trans hdoubled))
        exact ⟨rfl, List.cons_ne_nil _ _⟩

/-! ## Texts without a scheme, and the ones with a flat path -/

theorem parse_of_slash (rest : Text) : parse ('/' :: rest) = .error .relativeWithoutBase := by
  unfold parse read
  dsimp only
  rw [readScheme_clean_slash]

theorem exists_readOther_of_parse (h : parse text = .ok url)
    (hspecial : isSpecialScheme url.scheme = false) :
    ∃ scheme rest, readScheme (clean text) = some (scheme, rest)
      ∧ readOther scheme rest = .ok url := by
  unfold parse read at h
  dsimp only at h
  split at h
  · next scheme rest hread =>
    refine ⟨scheme, rest, hread, ?_⟩
    split at h
    · next hfile =>
      rw [(readFile_isNormal h).scheme] at hspecial
      exact absurd hspecial (by decide)
    · split at h
      · next hscheme =>
        rw [(readAuthority_isNormal h).1] at hspecial
        exact absurd hscheme (ne_true_of_eq_false hspecial)
      · exact h
  · cases h

theorem flat_readOther {scheme rest flat : Text} (h : readOther scheme rest = .ok url)
    (hflat : url.path = .flat flat) :
    flat = percentEncode (fun _ => false) (cutPath rest).1 := by
  unfold readOther at h
  split at h
  · obtain ⟨segments, hpath, -⟩ := (readAuthority_isNormal h).2.path
    rw [hpath] at hflat
    cases hflat
  · obtain rfl := Except.ok.inj h
    cases hflat
  · obtain rfl := Except.ok.inj h
    exact (UrlPath.flat.inj hflat).symm

/-- A flat path of an encoded text is a part of it, and the scheme is no part of the path. -/
theorem length_flat_lt {flat : Text} (hplain : IsPlain (fun _ => false) text)
    (h : parse text = .ok url) (hspecial : isSpecialScheme url.scheme = false)
    (hflat : url.path = .flat flat) : flat.length < text.length := by
  obtain ⟨scheme, rest, hread, hother⟩ := exists_readOther_of_parse h hspecial
  obtain ⟨-, hrest⟩ := readScheme_eq_some hread
  have hclean : (clean text).Sublist text := clean_sublist text
  have hcut : (cutPath rest).1.Sublist rest := List.takeWhile_sublist _
  have hsublist : (':' :: rest).Sublist text := hrest.sublist.trans hclean
  have hpart : IsPlain (fun _ => false) (cutPath rest).1 := by
    intro c hc
    exact hplain c (hsublist.mem (List.mem_cons_of_mem _ (hcut.mem hc)))
  rw [flat_readOther hother hflat, percentEncode_of_isPlain hpart]
  exact Nat.lt_of_lt_of_le (Nat.lt_succ_of_le hcut.length_le) hsublist.length_le

theorem pathText_ne_of_parse (h : parse text = .ok url) : url.pathText ≠ text := by
  intro heq
  have hstable : url.IsStable := read_isStable (by simp) h
  rcases hstable.pathText_cases with ⟨⟨hspecial, hshape⟩, hplain, -⟩ | ⟨-, rest, hrest, -⟩
  · rcases hshape with ⟨flat, hflat⟩ | hnil
    · have hpath : flat = text := by
        rw [← heq, pathText, hflat]
        rfl
      rw [heq] at hplain
      have hshorter := length_flat_lt hplain h hspecial hflat
      rw [hpath] at hshorter
      exact Nat.lt_irrefl _ hshorter
    · have hpath : url.pathText = [] := by
        rw [pathText, hnil]
        rfl
      rw [← heq, hpath] at h
      cases h
  · rw [← heq, hrest, parse_of_slash] at h
    cases h

end Url

namespace Helper

variable {text : Text}

/-- Whether a text begins with one slash and no second one. -/
def IsAbsolute (text : Text) : Prop := ∃ rest, text = '/' :: rest ∧ rest.head? ≠ some '/'

theorem isAbsolute_slash_iff {rest : Text} :
    IsAbsolute ('/' :: rest) ↔ rest.head? ≠ some '/' := by
  constructor
  · rintro ⟨_, heq, hrest⟩
    rwa [(List.cons.inj heq).2]
  · exact fun hrest => ⟨rest, rfl, hrest⟩

/-! ## The cases of `path` -/

theorem path_of_isAbsolute (h : IsAbsolute text) : path text = text := by
  obtain ⟨rest, rfl, hrest⟩ := h
  unfold path
  split
  · next heq =>
    rw [(List.cons.inj heq).2] at hrest
    exact absurd rfl hrest
  · rfl
  · next hnot => exact absurd rfl (hnot rest)

theorem path_of_parse {url : Url} (h : Url.parse text = .ok url) : path text = url.pathText := by
  have hslash : ∀ rest, text ≠ '/' :: rest := by
    intro rest heq
    rw [heq, Url.parse_of_slash] at h
    cases h
  unfold path
  split
  · exact absurd rfl (hslash _)
  · exact absurd rfl (hslash _)
  · rw [h]

/-- The path of what is no URL is the text itself or the root. -/
theorem isAbsolute_path_of_error {cause : UrlError} (h : Url.parse text = .error cause) :
    IsAbsolute (path text) := by
  by_cases hslash : IsAbsolute text
  · rwa [path_of_isAbsolute hslash]
  · have hroot : path text = ['/'] := by
      unfold path
      split
      · rfl
      · next rest hrest =>
        refine absurd (isAbsolute_slash_iff.2 fun hhead => ?_) hslash
        obtain ⟨more, rfl⟩ := List.head?_eq_some_iff.1 hhead
        exact hrest more rfl
      · rw [h]
    rw [hroot]
    exact ⟨[], rfl, by simp⟩

/-- The texts that are their own path. -/
theorem path_eq_self_iff : path text = text ↔ IsAbsolute text := by
  refine ⟨fun hself => ?_, path_of_isAbsolute⟩
  cases hparse : Url.parse text with
  | ok url =>
    rw [path_of_parse hparse] at hself
    exact absurd hself (Url.pathText_ne_of_parse hparse)
  | error cause =>
    rw [← hself]
    exact isAbsolute_path_of_error hparse

/-- The path of a text begins with a slash exactly if the text is no URL whose path has none, and
taking the path of the path changes nothing exactly if, besides, the text is no URL whose path
begins with two. -/
theorem path_settles_iff (text : Text) :
    ((∃ rest, path text = '/' :: rest) ↔ ∀ url, Url.parse text = .ok url → ¬url.IsRootless)
      ∧ (path (path text) = path text
        ↔ ∀ url, Url.parse text = .ok url → ¬url.IsRootless ∧ ¬url.IsDoubled) := by
  rw [path_eq_self_iff]
  cases hparse : Url.parse text with
  | error cause =>
    have habsolute := isAbsolute_path_of_error hparse
    have hslash : ∃ rest, path text = '/' :: rest := habsolute.imp fun _ h => h.1
    exact ⟨iff_of_true hslash (fun _ h => nomatch h), iff_of_true habsolute (fun _ h => nomatch h)⟩
  | ok url =>
    simp only [Except.ok.injEq, forall_eq']
    rw [path_of_parse hparse]
    rcases (Url.read_isStable (by simp) hparse).pathText_cases with
      ⟨hrootless, -, hhead⟩ | ⟨hroot, rest, hrest, hdoubled⟩
    · have hslash : ¬∃ rest, url.pathText = '/' :: rest := by
        rintro ⟨rest, hrest⟩
        exact hhead (by rw [hrest]; rfl)
      exact ⟨iff_of_false hslash fun hroot => hroot hrootless,
        iff_of_false (fun habsolute => hslash (habsolute.imp fun _ h => h.1))
          fun hroot => hroot.1 hrootless⟩
    · rw [hrest, isAbsolute_slash_iff, ne_eq, hdoubled]
      exact ⟨iff_of_true ⟨rest, rfl⟩ hroot, (and_iff_right hroot).symm⟩

/-- The path of `mailto:x` begins with no slash, and its own path is the root. That of
`http://h//x` begins with two slashes, and its own path is the root as well. -/
theorem path_mailto :
    path "mailto:x".toList = "x".toList ∧ (¬∃ rest, path "mailto:x".toList = '/' :: rest)
      ∧ path (path "mailto:x".toList) = "/".toList
      ∧ path "http://h//x".toList = "//x".toList
      ∧ path (path "http://h//x".toList) = "/".toList := by
  refine ⟨rfl, ?_, rfl, rfl, rfl⟩
  rintro ⟨rest, hrest⟩
  exact absurd (List.cons.inj (show "x".toList = '/' :: rest from hrest)).1 (by decide)

end Helper

end HubRules
