import HubRules.Proofs.Placeholder.Resolved
import HubRules.Resolution
import HubRules.Template.Render

/-!
# What helpers read

No helper reads a key that is named as a URL. So two configurations that agree on all other
keys have the same helpers (`SameOutsideUrls.helpers`), and it does not matter to a helper what
stands for the placeholder in the URLs of its configuration (`helpers_answer_alike`).
-/

namespace HubRules

namespace Configuration

/-- Whether two configurations agree on all keys that are not named as URLs. -/
def SameOutsideUrls (a b : Configuration) : Prop :=
  ∀ key, isUrlKey key = false → a.get? key = b.get? key

theorem get?_resolveUrls (config : Configuration) (mode : Placeholder) (key : String) :
    (config.resolveUrls mode).get? key = (config.get? key).map (mode.resolveValue key) := by
  obtain ⟨members⟩ := config
  simp only [get?, Members.get?, resolveUrls]
  induction members with
  | nil => rfl
  | cons member rest ih =>
    obtain ⟨name, value⟩ := member
    rw [List.map_cons, List.lookup_cons, List.lookup_cons, ih]
    by_cases h : key = name
    · subst h
      simp
    · rw [beq_eq_false_iff_ne.2 h]

theorem resolveUrls_sameOutsideUrls (config : Configuration) (mode : Placeholder) :
    (config.resolveUrls mode).SameOutsideUrls config := by
  intro key hkey
  rw [get?_resolveUrls]
  cases config.get? key with
  | none => rfl
  | some value => rw [Option.map_some, Placeholder.resolveValue_of_not_url hkey]

theorem isUrlKey_append (name ending : String)
    (hlength : "_url".toList.length ≤ ending.toList.length) :
    isUrlKey (name ++ ending) = isUrlKey ending := by
  unfold isUrlKey
  rw [String.toList_append, Bool.eq_iff_iff, List.isSuffixOf_iff_suffix,
    List.isSuffixOf_iff_suffix]
  constructor
  · exact fun h => List.suffix_of_suffix_length_le h (List.suffix_append _ _) hlength
  · exact fun h => h.trans (List.suffix_append _ _)

namespace SameOutsideUrls

variable {a b : Configuration} (h : a.SameOutsideUrls b)

include h

theorem text {key : String} (hkey : isUrlKey key = false) : a.text key = b.text key :=
  text_congr (h key hkey)

theorem textOrEmpty {key : String} (hkey : isUrlKey key = false) :
    a.textOrEmpty key = b.textOrEmpty key :=
  textOrEmpty_congr (h key hkey)

theorem isSet {key : String} (hkey : isUrlKey key = false) : a.isSet key = b.isSet key :=
  isSet_congr (h key hkey)

theorem routingTable (group : RoutingGroup) : a.routingTable group = b.routingTable group := by
  unfold Configuration.routingTable
  rw [h "hub_mapping" (by decide)]

/-! ## Helpers -/

variable (engine : Engine)

theorem configText {key : String} (hkey : isUrlKey key = false) :
    (HelperScope.mk a engine).configText key = (HelperScope.mk b engine).configText key := by
  unfold HelperScope.configText
  rw [h.text hkey]

theorem references (group : RoutingGroup) (text : Text) :
    (HelperScope.mk a engine).references group text
      = (HelperScope.mk b engine).references group text := by
  unfold HelperScope.references Reference.write
  rw [h.routingTable group]

/-- The key of a server's host is put together from the text of the section. -/
theorem serverAddress (text : Text) :
    (HelperScope.mk a engine).serverAddress text = (HelperScope.mk b engine).serverAddress text := by
  unfold HelperScope.serverAddress
  cases engine with
  | nginx => rfl
  | httpd =>
    have hhost (server : String) :
        (HelperScope.mk a .httpd).configText (server ++ "_host")
          = (HelperScope.mk b .httpd).configText (server ++ "_host") :=
      h.configText .httpd (by rw [isUrlKey_append _ _ (by decide)]; decide)
    simp only [hhost]

theorem redirectPort (text : Text) :
    (HelperScope.mk a engine).redirectPort text = (HelperScope.mk b engine).redirectPort text := by
  unfold HelperScope.redirectPort
  rw [h.isSet (show isUrlKey "proxy_port_in_redirect" = false by decide)]

theorem branchMaps (text : Text) :
    (HelperScope.mk a engine).branchMaps text = (HelperScope.mk b engine).branchMaps text := by
  have hbranch (group : RoutingGroup) :
      a.textOrEmpty (group.name ++ "_branch") = b.textOrEmpty (group.name ++ "_branch") :=
    h.textOrEmpty (by rw [isUrlKey_append _ _ (by decide)]; decide)
  have hfolder := h.configText engine (show isUrlKey "branch_maps_path" = false by decide)
  unfold HelperScope.branchMaps
  simp only [hbranch, hfolder, h.routingTable]

theorem servesDirectly :
    (HelperScope.mk a engine).servesDirectly = (HelperScope.mk b engine).servesDirectly :=
  h.isSet (by decide)

theorem jobPath (text : Text) :
    (HelperScope.mk a engine).jobPath text = (HelperScope.mk b engine).jobPath text := by
  unfold HelperScope.jobPath
  simp only [h.references engine]

theorem artifactPath (kind : ArtifactKind) (text : Text) :
    (HelperScope.mk a engine).artifactPath kind text
      = (HelperScope.mk b engine).artifactPath kind text := by
  have hserver := h.configText engine (show isUrlKey "jenkins_path" = false by decide)
  unfold HelperScope.artifactPath
  simp only [h.jobPath engine, h.servesDirectly engine, hserver]

theorem directPath (path : Text) :
    (HelperScope.mk a engine).directPath path = (HelperScope.mk b engine).directPath path := by
  unfold HelperScope.directPath
  simp only [h.references engine]

theorem artifactRule (text : Text) :
    (HelperScope.mk a engine).artifactRule text = (HelperScope.mk b engine).artifactRule text := by
  have hhost := h.configText engine (show isUrlKey "jenkins_host" = false by decide)
  unfold HelperScope.artifactRule
  simp only [h.servesDirectly engine, h.directPath engine, hhost]

theorem helpers : (HelperScope.mk a engine).helpers = (HelperScope.mk b engine).helpers := by
  unfold HelperScope.helpers
  have hproxy : (HelperScope.mk a engine).proxyRule = (HelperScope.mk b engine).proxyRule := rfl
  have hredirect : (HelperScope.mk a engine).redirect = (HelperScope.mk b engine).redirect := rfl
  rw [funext (h.branchMaps engine), funext (h.artifactPath engine .artifact),
    funext (h.artifactPath engine .report), funext (h.artifactRule engine),
    funext (h.serverAddress engine), hproxy, hredirect]
  simp only [h.redirectPort engine]

end SameOutsideUrls

end Configuration

/-- The helpers of a configuration answer alike whatever stands for the placeholder in its URLs:
there are eleven of them, each gives every text the same result or the same error, and so the
base of a resolution, its display and its proxy configuration render every template alike. -/
theorem helpers_answer_alike (config : Configuration) (engine : Engine) (mode : Placeholder) :
    (HelperScope.mk (config.resolveUrls mode) engine).helpers.names
        = ["branch_maps", "jenkins_artifact", "jenkins_redirect", "jenkins_report",
          "jenkins_rewrite", "join", "path", "port", "proxy_rewrite", "upstream", "url"]
      ∧ (∀ name text, (HelperScope.mk (config.resolveUrls mode) engine).helpers.call name text
        = (HelperScope.mk config engine).helpers.call name text)
      ∧ ∀ source data strict,
        Template.renderText source data
            (HelperScope.mk (config.resolveUrls mode) engine).helpers strict
          = Template.renderText source data (HelperScope.mk config engine).helpers strict := by
  have hsame := (config.resolveUrls_sameOutsideUrls mode).helpers engine
  rw [hsame]
  exact ⟨rfl, fun _ _ => rfl, fun _ _ _ => rfl⟩

end HubRules
