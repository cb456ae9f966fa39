import HubRules.Proofs.Helper.ReferencePath
import HubRules.Proofs.Helper.UrlKeys
import HubRules.Proofs.Resolution.Fixpoint

/-!
# The address of a test environment

In a test environment the URL of the visualizations is made absolute while it still holds its
placeholders. A path of plain characters, slashes and `$` is not changed by that
(`join_plainPath`), and the address that is set before it takes part in no placeholder, although a
placeholder may stand directly behind the host and take the slash with it. So the placeholders may
be replaced before or after (`resolveUrls_forTest`).
-/

namespace HubRules

open Text Outcome

/-! ## Paths that are kept -/

namespace Url

/-- What stands behind the first slash of a path that is kept as it is: no second slash, and only
plain characters, slashes and `$`. -/
structure IsPlainPath (rest : Text) : Prop where
  single : rest.head? ≠ some '/'
  chars : ∀ c ∈ rest, Helper.isPlainChar c ∨ c = '/' ∨ c = '$'

theorem isNormalSegment_of_plain {segment : Text}
    (h : ∀ c ∈ segment, Helper.isPlainChar c ∨ c = '$') : IsNormalSegment true false segment := by
  have hchars : ∀ c ∈ segment, isSegmentChar true c ∧ c.toLower ≠ '.' ∧ c.toLower ≠ '%' := by
    intro c hc
    rcases h c hc with hplain | rfl
    · exact Helper.of_isPlainChar (p := fun c => isSegmentChar true c ∧ c.toLower ≠ '.'
        ∧ c.toLower ≠ '%') (by decide) hplain
    · decide
  have hlower : ∀ c ∈ lowerAscii segment, c ≠ '.' ∧ c ≠ '%' := by
    intro c hc
    obtain ⟨d, hd, rfl⟩ := List.mem_map.1 hc
    exact (hchars d hd).2
  have hdots : isSingleDot segment = false ∧ isDoubleDot segment = false := by
    apply not_dots_of_start
    intro dot rest hdot heq
    rw [heq] at hlower
    rcases hdot with rfl | rfl
    · exact (hlower '.' List.mem_cons_self).1 rfl
    · exact (hlower '%' List.mem_cons_self).2 rfl
  refine ⟨fun c hc => (hchars c hc).1, hdots.1, hdots.2, ?_⟩
  exact percentEncode_of_isPlain fun c hc => (Bool.and_eq_true_iff.1 (hchars c hc).1).1

variable {labels : List Text} {rest : Text}

theorem IsPlainPath.isNormalSegment (h : IsPlainPath rest) :
    ∀ segment ∈ split '/' rest, IsNormalSegment true false segment := by
  intro segment hsegment
  apply isNormalSegment_of_plain
  intro c hc
  rcases h.chars c (mem_of_mem_split hsegment hc) with hplain | rfl | rfl
  · exact .inl hplain
  · exact absurd hc (not_mem_of_mem_split hsegment)
  · exact .inr rfl

/-- A character of such a path is no blank, is a slash or separates nothing, and begins neither a
query nor a fragment. -/
theorem IsPlainPath.bounds (h : IsPlainPath rest) :
    ∀ c ∈ rest, 32 < c.toNat ∧ (c = '/' ∨ isSlash true c = false) ∧ c ≠ '?' ∧ c ≠ '#' := by
  intro c hc
  rcases h.chars c hc with hplain | rfl | rfl
  · obtain ⟨hblank, hslash, hsigns⟩ :=
      Helper.bounds_of_isPathChar (Helper.isPathChar_of_isPlainChar hplain)
    exact ⟨hblank, .inr hslash, hsigns⟩
  · decide
  · decide

/-- The URL of a path below a host. -/
def below (name rest : Text) : Url :=
  { ofHost name with path := .segments (split '/' rest) }

theorem toText_below (name rest : Text) :
    (below name rest).toText = "http://".toList ++ name ++ '/' :: rest := by
  have hpath : (below name rest).pathText = '/' :: rest := by
    show (UrlPath.segments (split '/' rest)).toText = _
    rw [toText_segments (split_ne_nil '/' rest), join_split]
  unfold toText
  rw [hpath]
  simp [below, ofHost, userText, hostPortText, Host.toText]

theorem join_plainPath (hname : Host.IsName labels) (h : IsPlainPath rest) :
    (ofHost (Text.join ['.'] labels)).join ('/' :: rest)
      = .ok (below (Text.join ['.'] labels) rest) := by
  have hclean : clean ('/' :: rest) = '/' :: rest :=
    clean_of_all (List.forall_mem_cons.2 ⟨by decide, fun c hc => (h.bounds c hc).1⟩)
  have hfirst : ∀ c ∈ rest.head?, isSlash true c = false := by
    intro c hc
    rcases (h.bounds c (List.mem_of_head? hc)).2.1 with rfl | hslash
    · exact absurd hc h.single
    · exact hslash
  have hsegments : readSegments true false [] rest = split '/' rest := by
    have hjoin := readSegments_join (split_ne_nil '/' rest) h.isNormalSegment
    rwa [join_split] at hjoin
  have hnormal : (ofHost (Text.join ['.'] labels)).IsNormal :=
    parse_isNormal (.inl rfl) (parse_ofHost (Host.isNormal_name hname))
  rw [join_of_readScheme_none hnormal (readScheme_clean_slash rest), hclean,
    readRelative_slash hfirst fun c hc => (h.bounds c hc).2.2]
  unfold below
  rw [← hsegments]
  rfl

end Url

/-! ## The overridden address -/

namespace Configuration

variable {config : Configuration} {inputs : BuildInputs}

theorem get?_withServer_of_ne {key : String} (h : key ≠ "jenkins_direct") :
    (config.withServer inputs).get? key = config.get? key := by
  unfold withServer
  cases inputs.jenkinsDirect with
  | none => rfl
  | some server => exact (get?_set config _ key _).trans (if_neg h)

theorem exists_forTest {server path : String} {base url : Url}
    (hserver : config.text "visualization_server" = .ok server)
    (hbase : Url.parse ("http://" ++ server).toList = .ok base)
    (hpath : config.text "visualization_url" = .ok path)
    (hurl : base.join path.toList = .ok url) :
    ∃ result, config.forTest = .ok result
      ∧ result.get? "visualization_url" = some (.string (String.ofList url.toText)) := by
  unfold forTest
  simp only [hserver, hbase, hpath, hurl, mapError_ok, bind, Except.bind]
  refine ⟨_, rfl, ?_⟩
  split <;> simp [get?_set]

/-- No placeholder begins before the end of the address of a host. -/
theorem apply_address {labels : List Text} (hname : Host.IsName labels) (mode : Placeholder)
    (rest : Text) :
    mode.apply ("http://".toList ++ Text.join ['.'] labels ++ rest)
      = "http://".toList ++ Text.join ['.'] labels ++ mode.apply rest := by
  have hne : Text.join ['.'] labels ≠ [] := (Host.isNormal_name hname).1
  have hchars : ∀ c ∈ Text.join ['.'] labels, c ≠ '$' ∧ c ≠ '/' :=
    hname.of_mem (by decide) (by decide)
  apply Placeholder.apply_plain_append
  · intro hmem
    rcases List.mem_append.1 hmem with hstart | hname
    · exact absurd hstart (by decide)
    · exact (hchars _ hname).1 rfl
  · rw [List.getLast?_append, List.getLast?_eq_some_getLast hne, Option.some_or]
    intro hlast
    exact (hchars _ (List.getLast_mem hne)).2 (Option.some.inj hlast)

/-- In a test environment with a host name in lower-case letters and a plain path, the overrides
can be set, and however the placeholders of the URL of the visualizations are then replaced, what
results is the address of the host and the path with its placeholders replaced. -/
theorem resolveUrls_forTest {labels : List Text} {rest : Text}
    (henvironment : inputs.environment = some .test) (hname : Host.IsName labels)
    (hserver : config.text "visualization_server" = .ok (String.ofList (Text.join ['.'] labels)))
    (hplain : Url.IsPlainPath rest)
    (hpath : config.text "visualization_url" = .ok (String.ofList ('/' :: rest))) :
    ∃ base, config.applyInputs inputs = .ok base ∧ ∀ mode : Placeholder,
      (base.resolveUrls mode).text "visualization_url" = .ok (String.ofList
        ("http://".toList ++ Text.join ['.'] labels ++ mode.apply ('/' :: rest))) := by
  have hserver' : (config.withServer inputs).text "visualization_server"
      = .ok (String.ofList (Text.join ['.'] labels)) :=
    (text_congr (get?_withServer_of_ne (by decide))).trans hserver
  have hpath' : (config.withServer inputs).text "visualization_url"
      = .ok (String.ofList ('/' :: rest)) :=
    (text_congr (get?_withServer_of_ne (by decide))).trans hpath
  have hbase : Url.parse ("http://" ++ String.ofList (Text.join ['.'] labels)).toList
      = .ok (Url.ofHost (Text.join ['.'] labels)) := by
    rw [String.toList_append, @String.toList_ofList (Text.join _ _)]
    exact Url.parse_ofHost (Host.isNormal_name hname)
  have hjoin : (Url.ofHost (Text.join ['.'] labels)).join (String.ofList ('/' :: rest)).toList
      = .ok (Url.below (Text.join ['.'] labels) rest) := by
    rw [String.toList_ofList]
    exact Url.join_plainPath hname hplain
  obtain ⟨base, hrun, hurl⟩ := exists_forTest hserver' hbase hpath' hjoin
  refine ⟨base, ?_, ?_⟩
  · rw [applyInputs_eq, henvironment]
    exact hrun
  · intro mode
    apply text_of_get?
    rw [get?_resolveUrls, hurl, Option.map_some, Placeholder.resolveValue_url (by decide),
      String.toList_ofList, Url.toText_below, apply_address hname]

/-- A placeholder directly behind the host, and one at the end. -/
def hostedConfiguration : Configuration :=
  ⟨[("visualization_server", .string "www.gros.test"),
    ("visualization_url", .string "/$organization/hub/$organization")]⟩

theorem resolveUrls_forTest_hosted :
    Host.IsName ["www".toList, "gros".toList, "test".toList]
      ∧ Url.IsPlainPath "$organization/hub/$organization".toList
      ∧ ∃ base, hostedConfiguration.applyInputs Resolution.testInputs = .ok base
        ∧ (base.resolveUrls .remove).text "visualization_url" = .ok "http://www.gros.test/hub"
        ∧ (base.resolveUrls .combined).text "visualization_url"
          = .ok "http://www.gros.test/combined/hub/combined" := by
  have hname : Host.IsName ["www".toList, "gros".toList, "test".toList] :=
    ⟨by decide, by decide⟩
  have hplain : Url.IsPlainPath "$organization/hub/$organization".toList :=
    ⟨by decide, by decide⟩
  obtain ⟨base, hrun, hurl⟩ := @resolveUrls_forTest hostedConfiguration Resolution.testInputs _ _
    rfl hname rfl hplain rfl
  exact ⟨hname, hplain, base, hrun, hurl .remove, hurl .combined⟩

end Configuration

end HubRules
