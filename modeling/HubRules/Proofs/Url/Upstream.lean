import HubRules.Proofs.Url.Reread

/-!
# URLs of origin and path

The text of the origin and the path of a URL of the web is a URL with the same scheme, host, port
number and path (`parse_origin_path`): user, query and fragment are all that is left out.
-/

namespace HubRules.Url

open Text

/-- The schemes of the web. -/
def IsWebScheme (scheme : Text) : Prop := scheme = "http".toList ∨ scheme = "https".toList

/-- A URL of the web as it is read. -/
structure IsNormal (url : Url) : Prop extends url.IsNormalAuthority where
  scheme : IsWebScheme url.scheme

/-- The URL without user, query and fragment. -/
def upstream (url : Url) : Url :=
  { url with username := [], password := [], query := none, fragment := none }

theorem isSpecialScheme_of_web {scheme : Text} (h : IsWebScheme scheme) :
    isSpecialScheme scheme := by
  rcases h with rfl | rfl <;> decide

theorem ne_fileScheme_of_web {scheme : Text} (h : IsWebScheme scheme) : scheme ≠ fileScheme := by
  rcases h with rfl | rfl <;> decide

theorem isNormalScheme_of_web {scheme : Text} (h : IsWebScheme scheme) : IsNormalScheme scheme := by
  rcases h with rfl | rfl
  · exact ⟨⟨'h', "ttp".toList, rfl, rfl⟩, by decide, by decide⟩
  · exact ⟨⟨'h', "ttps".toList, rfl, rfl⟩, by decide, by decide⟩

theorem parse_isNormal {text : Text} {url : Url} (hscheme : IsWebScheme url.scheme)
    (h : parse text = .ok url) : url.IsNormal where
  toIsNormalAuthority := ((read_isStable (by simp) h).isNormalAuthority
    (ne_fileScheme_of_web hscheme) (isSpecialScheme_of_web hscheme)).2
  scheme := hscheme

theorem origin_eq {url : Url} (hscheme : IsWebScheme url.scheme) :
    url.origin = url.scheme ++ ("://".toList ++ url.hostPortText) := by
  have hnetwork : url.networkOrigin? = some (url.scheme ++ "://".toList ++ url.hostPortText) := by
    unfold networkOrigin?
    rcases hscheme with h | h <;> rw [h] <;> rfl
  have hblob : url.scheme ≠ "blob".toList := by
    rcases hscheme with h | h <;> rw [h] <;> decide
  have hwithin : ∀ fuel, originWithin fuel url = url.networkOrigin? := by
    intro fuel
    cases fuel with
    | zero => rfl
    | succ fuel =>
      unfold originWithin
      rw [if_neg hblob]
  unfold origin
  rw [hwithin, hnetwork, Option.getD_some, List.append_assoc]

theorem upstream_isNormal {url : Url} (h : url.IsNormal) : url.upstream.IsNormalAuthority where
  username := by simp [upstream, IsPlain]
  password := by simp [upstream, IsPlain]
  host := by
    obtain ⟨host, hhost, hnormal, hbare⟩ := h.host
    exact ⟨host, hhost, hnormal, fun hdomain => ⟨rfl, rfl, (hbare hdomain).2.2⟩⟩
  port := h.port
  path := h.path
  tail := ⟨by simp [upstream], by simp [upstream]⟩

/-- Origin and path of a URL of the web are a URL, which has no user, query and fragment. -/
theorem parse_origin_path {url : Url} (h : url.IsNormal) :
    parse (url.origin ++ url.pathText) = .ok url.upstream := by
  have hnormal := upstream_isNormal h
  have htext : url.origin ++ url.pathText = url.upstream.toText := by
    have hbehind : url.upstream.behindSlashes = url.hostPortText ++ url.pathText := by
      show [] ++ url.hostPortText ++ (url.pathText ++ []) = _
      simp
    rw [hnormal.toText_eq, hbehind, origin_eq h.scheme]
    show _ = url.scheme ++ _
    simp
  rw [htext]
  exact read_toText none (.authority (isNormalScheme_of_web h.scheme)
    (ne_fileScheme_of_web h.scheme) hnormal)

end HubRules.Url
