import HubRules.Proofs.Routing.ArtifactPath
import HubRules.Proofs.Routing.RuleTarget
import HubRules.Proofs.Routing.Separators

/-!
# Artifact rules in both engines

A rule's path has two parts: what the rule itself puts in front of it, whose references it
writes for the engine, and what it keeps as it is written (`startPath`, `keptPath`). So the
rules of one text lead to the same path exactly if both engines take the kept part alike,
which httpd does not do with a named reference in it (`artifactRule_samePath_iff`).
-/

namespace HubRules

open Reference Text

/-! ## The parts of a path -/

/-- The sites that are served from a hub's tree. -/
def IsSite (site : Text) : Prop := site = "prediction".toList ∨ site = "visualization".toList

theorem IsSite.dollar_not_mem {site : Text} (h : IsSite site) : '$' ∉ site := by
  rcases h with rfl | rfl <;> decide

theorem IsSite.isPlain_hub {site : Text} (h : IsSite site) :
    isPlain ("$hub/".toList ++ site) := by
  rcases h with rfl | rfl <;> decide

theorem isLiteral_hub (site : Text) : isLiteral ("$hub/".toList ++ site) = false := rfl

/-- What follows a given site and its branch at the head of a path. -/
def siteAt? (site : Text) (group : RoutingGroup) (path : Text) :
    Option (Text × RoutingGroup × Text) := do
  let rest ← dropStart? (site ++ "-site/".toList) path
  let branch := rest.takeWhile (· != '/')
  if branch.isEmpty then none else some (site, group, rest.drop branch.length)

theorem sitePrefix?_eq (path : Text) : HelperScope.sitePrefix? path
    = (siteAt? "prediction".toList .prediction path).orElse
        fun _ => siteAt? "visualization".toList .hub path := rfl

theorem siteAt?_append (site : Text) (group : RoutingGroup) (rest : Text) :
    siteAt? site group ((site ++ "-site/".toList) ++ rest)
      = if (rest.takeWhile (· != '/')).isEmpty then none
        else some (site, group, rest.dropWhile (· != '/')) := by
  unfold siteAt?
  rw [dropStart?_append]
  simp only [Option.bind_eq_bind, Option.bind_some, drop_length_takeWhile]

theorem siteAt?_eq_some {site site' path kept : Text} {group group' : RoutingGroup}
    (h : siteAt? site group path = some (site', group', kept)) :
    site' = site ∧ group' = group ∧ ∃ branch, path = (site ++ "-site/".toList) ++ (branch ++ kept)
      ∧ ∀ c ∈ kept.head?, c = '/' := by
  unfold siteAt? at h
  cases hrest : dropStart? (site ++ "-site/".toList) path with
  | none =>
    simp only [hrest, Option.bind_eq_bind, Option.bind_none, reduceCtorEq] at h
  | some rest =>
    simp only [hrest, Option.bind_eq_bind, Option.bind_some, drop_length_takeWhile] at h
    split at h
    · simp at h
    · obtain ⟨rfl, rfl, rfl⟩ : site = site' ∧ group = group' ∧ _ = kept := by simpa using h
      refine ⟨rfl, rfl, rest.takeWhile (· != '/'), ?_, fun c hc => ?_⟩
      · rw [List.takeWhile_append_dropWhile]
        exact dropStart?_eq_some_iff.1 hrest
      · have hstop := List.head?_dropWhile_not (· != '/') rest
        rw [hc] at hstop
        simpa using hstop

/-- A site belongs to the routing group of its job, and what follows its branch begins a
segment. -/
theorem sitePrefix?_eq_some {path site kept : Text} {group : RoutingGroup}
    (h : HelperScope.sitePrefix? path = some (site, group, kept)) :
    IsSite site ∧ group = RoutingGroup.ofJob (path.takeWhile (· != '/'))
      ∧ (∃ branch, path = (site ++ "-site/".toList) ++ (branch ++ kept))
      ∧ ∀ c ∈ kept.head?, c = '/' := by
  have hjob : ∀ site rest : Text, (∀ c ∈ site, (c != '/') = true) →
      ((site ++ "-site/".toList) ++ rest).takeWhile (· != '/') = site ++ "-site".toList := by
    intro site rest hsite
    have hcut : (site ++ "-site/".toList) ++ rest = (site ++ "-site".toList) ++ '/' :: rest := by
      simp
    rw [hcut]
    have hword : ∀ c ∈ "-site".toList, (c != '/') = true := by decide
    refine takeWhile_append_stop (fun c hc => ?_) (by simp)
    rcases List.mem_append.1 hc with hc | hc
    · exact hsite c hc
    · exact hword c hc
  rw [sitePrefix?_eq] at h
  cases hfirst : siteAt? "prediction".toList .prediction path with
  | some found =>
    rw [hfirst] at h
    obtain rfl : found = (site, group, kept) := Option.some.inj h
    obtain ⟨rfl, rfl, branch, rfl, hkept⟩ := siteAt?_eq_some hfirst
    rw [hjob _ _ (by decide)]
    exact ⟨.inl rfl, by decide, ⟨branch, rfl⟩, hkept⟩
  | none =>
    rw [hfirst] at h
    obtain ⟨rfl, rfl, branch, rfl, hkept⟩ := siteAt?_eq_some h
    rw [hjob _ _ (by decide)]
    exact ⟨.inr rfl, by decide, ⟨branch, rfl⟩, hkept⟩

theorem siteAt?_of_no_start {site path : Text} {group : RoutingGroup}
    (h : (site ++ "-site/".toList).isPrefixOf path = false) : siteAt? site group path = none := by
  unfold siteAt? dropStart?
  rw [h]
  rfl

theorem sitePrefix?_of_no_start {path : Text}
    (hprediction : "prediction-site/".toList.isPrefixOf path = false)
    (hvisualization : "visualization-site/".toList.isPrefixOf path = false) :
    HelperScope.sitePrefix? path = none := by
  rw [sitePrefix?_eq, @siteAt?_of_no_start "prediction".toList _ _ hprediction,
    @siteAt?_of_no_start "visualization".toList _ _ hvisualization]
  rfl

/-- A site is taken off with what stands before the next slash, be it a branch or not. -/
theorem sitePrefix?_of_site {site : Text} (hsite : IsSite site) (rest : Text) :
    HelperScope.sitePrefix? ((site ++ "-site/".toList) ++ rest)
      = if (rest.takeWhile (· != '/')).isEmpty then none
        else some (site, RoutingGroup.ofJob (site ++ "-site".toList),
          rest.dropWhile (· != '/')) := by
  rw [sitePrefix?_eq]
  rcases hsite with rfl | rfl
  · have hother : siteAt? "visualization".toList .hub
        (("prediction".toList ++ "-site/".toList) ++ rest) = none :=
      siteAt?_of_no_start rfl
    rw [siteAt?_append, hother]
    split <;> rfl
  · have hother : siteAt? "prediction".toList .prediction
        (("visualization".toList ++ "-site/".toList) ++ rest) = none :=
      siteAt?_of_no_start rfl
    rw [siteAt?_append, hother]
    split <;> rfl

/-- What a rule puts in front of the path that it keeps. -/
def startPath (direct : Bool) (path : Text) : Text :=
  if direct then
    match HelperScope.sitePrefix? path with
    | some (site, _, _) => "$hub/".toList ++ site
    | none => if "prediction/".toList.isPrefixOf path then ['/'] else []
  else []

/-- What a rule keeps of a path: all but a site and its branch on a direct server. -/
def keptPath (direct : Bool) (path : Text) : Text :=
  if direct then
    match HelperScope.sitePrefix? path with
    | some (_, _, rest) => rest
    | none => path
  else path

/-- The server that httpd's rule names. -/
def Configuration.ruleOrigin (config : Configuration) (host : String) : Text :=
  if config.isSet "jenkins_direct" then []
  else "http://".toList ++ host.toList ++ ':' :: HelperScope.jobServerPort

/-- Whether a path with a tag has a rule. -/
def Configuration.hasRule (config : Configuration) (path tag : Text) : Bool :=
  !config.isSet "jenkins_direct" || HelperScope.needsDirectRule path tag

def HelperScope.ruleTarget (scope : HelperScope) (path : Text) : Except HelperError Text :=
  if scope.servesDirectly then scope.directPath path else .ok path

section

variable {config : Configuration} {table : RoutingTable} {host : String}
  {text pattern path target : Text} {rest : List Text}

/-! ## Rules by their targets -/

/-- Neither engine has a rule for a path that the direct server's tree serves. -/
theorem artifactRule_of_not_hasRule {engine : Engine}
    (hargs : RequestRule.arguments 3 text = pattern :: path :: rest)
    (hrule : config.hasRule path (rest.headD []) = false) :
    (HelperScope.mk config engine).artifactRule text = .ok [] := by
  simp only [Configuration.hasRule, Bool.or_eq_false_iff, Bool.not_eq_false'] at hrule
  unfold HelperScope.artifactRule
  rw [hargs]
  simp only [HelperScope.servesDirectly, hrule]
  rfl

theorem artifactRule_nginx (hargs : RequestRule.arguments 3 text = pattern :: path :: rest)
    (hrule : config.hasRule path (rest.headD []))
    (htarget : (HelperScope.mk config .nginx).ruleTarget path = .ok target) :
    (HelperScope.mk config .nginx).artifactRule text
      = .ok (RequestRule.nginx pattern (.path target)) := by
  unfold HelperScope.artifactRule
  rw [hargs]
  unfold HelperScope.ruleTarget at htarget
  unfold Configuration.hasRule at hrule
  cases hdirect : config.isSet "jenkins_direct" with
  | false =>
    simp only [HelperScope.servesDirectly, hdirect, Bool.false_eq_true, if_false,
      Except.ok.injEq] at htarget ⊢
    rw [htarget]
  | true =>
    simp only [HelperScope.servesDirectly, hdirect, if_true] at htarget ⊢
    simp only [hdirect, Bool.not_true, Bool.false_or] at hrule
    rw [hrule, htarget]
    rfl

theorem artifactRule_httpd (hargs : RequestRule.arguments 3 text = pattern :: path :: rest)
    (hrule : config.hasRule path (rest.headD []))
    (htarget : (HelperScope.mk config .httpd).ruleTarget path = .ok target)
    (hhost : config.text "jenkins_host" = .ok host) :
    ∃ last, ' ' ∉ last ∧ (HelperScope.mk config .httpd).artifactRule text
      = .ok (RequestRule.httpd pattern (config.ruleOrigin host ++ target)
          (RequestRule.readFlags (rest.headD []) ++ [last])) := by
  unfold HelperScope.artifactRule Configuration.ruleOrigin
  rw [hargs]
  unfold HelperScope.ruleTarget at htarget
  unfold Configuration.hasRule at hrule
  cases hdirect : config.isSet "jenkins_direct" with
  | false =>
    refine ⟨['P'], by decide, ?_⟩
    simp only [HelperScope.servesDirectly, hdirect, Bool.false_eq_true, if_false,
      Except.ok.injEq] at htarget ⊢
    rw [htarget]
    unfold HelperScope.configText
    rw [hhost]
    rfl
  | true =>
    refine ⟨"END".toList, by decide, ?_⟩
    simp only [HelperScope.servesDirectly, hdirect, if_true] at htarget ⊢
    simp only [hdirect, Bool.not_true, Bool.false_or] at hrule
    rw [hrule, htarget]
    rfl

theorem artifactRule_paired {text' path' target' : Text} {rest' : List Text}
    (hargs : RequestRule.arguments 3 text = pattern :: path :: rest)
    (hargs' : RequestRule.arguments 3 text' = pattern :: path' :: rest')
    (hrule : config.hasRule path (rest.headD [])) (hrule' : config.hasRule path' (rest'.headD []))
    (htarget : (HelperScope.mk config .nginx).ruleTarget path = .ok target)
    (htarget' : (HelperScope.mk config .httpd).ruleTarget path' = .ok target')
    (hhost : config.text "jenkins_host" = .ok host) :
    ∃ rn rh, (HelperScope.mk config .nginx).artifactRule text = .ok rn
      ∧ (HelperScope.mk config .httpd).artifactRule text' = .ok rh
      ∧ PairedRules pattern (config.ruleOrigin host) rn rh target (renumber target') := by
  obtain ⟨last, hlast, hhttpd⟩ := artifactRule_httpd hargs' hrule' htarget' hhost
  refine ⟨_, _, artifactRule_nginx hargs hrule htarget, hhttpd,
    RequestRule.nginxTarget?_nginx pattern target, ?_⟩
  rw [RequestRule.httpdTarget?_httpd
    (RequestRule.blank_not_mem_flags (RequestRule.blank_not_mem_tag hargs') hlast)]
  congr 1
  -- the origin ends in a digit of its port number, so that no group begins in it
  apply renumber_append
  unfold Configuration.ruleOrigin
  split
  · simp
  · have hport : "http://".toList ++ host.toList ++ ':' :: HelperScope.jobServerPort
        = "http://".toList ++ host.toList ++ ":808".toList ++ ['0'] := by
      simp [HelperScope.jobServerPort]
    rw [hport, List.getLast?_concat]
    simp

/-! ## Targets by their parts -/

theorem toHttpd_hub {site : Text} :
    toHttpd table ("$hub/".toList ++ site)
      = httpdReference table "hub".toList ++ toHttpd table ('/' :: site) := by
  have htoken : named? ("$hub".toList ++ '/' :: site) = some ("hub".toList, 4) := by
    refine named?_eq_some_iff.2 ⟨"hub".toList ++ '/' :: site, rfl, ?_, by decide, rfl⟩
    exact (takeWhile_append_stop (by decide) (by simp [isNameChar])).symm
  exact replaceTokens_token (by simp) htoken

theorem not_predictionPath {c : Char} {more : Text} (h : c = '$' ∨ c = '%') :
    "prediction/".toList.isPrefixOf (c :: more) = false := by
  rcases h with rfl | rfl <;> rfl

theorem directPath_of_site {engine : Engine} {site kept start : Text} {group : RoutingGroup}
    (hsite : HelperScope.sitePrefix? path = some (site, group, kept))
    (hstart : (HelperScope.mk config engine).references group ("$hub/".toList ++ site) = .ok start)
    (hnot : "prediction/".toList.isPrefixOf (start ++ kept) = false) :
    (HelperScope.mk config engine).directPath path = .ok (start ++ kept) := by
  unfold HelperScope.directPath
  rw [hsite]
  show ((HelperScope.mk config engine).references group ("$hub/".toList ++ site)).bind _ = _
  rw [hstart]
  exact congrArg Except.ok (if_neg (by rw [hnot]; exact Bool.false_ne_true))

theorem directPath_of_no_site {engine : Engine} (hsite : HelperScope.sitePrefix? path = none) :
    (HelperScope.mk config engine).directPath path
      = .ok ((if "prediction/".toList.isPrefixOf path then ['/'] else []) ++ path) := by
  unfold HelperScope.directPath
  rw [hsite]
  by_cases h : "prediction/".toList.isPrefixOf path = true
  · rw [if_pos h]
    exact congrArg Except.ok (if_pos h)
  · rw [if_neg h]
    exact congrArg Except.ok (if_neg h)

theorem startPath_of_site {site kept : Text} {group : RoutingGroup}
    (h : HelperScope.sitePrefix? path = some (site, group, kept)) :
    startPath true path = "$hub/".toList ++ site ∧ keptPath true path = kept := by
  unfold startPath keptPath
  rw [h]
  exact ⟨rfl, rfl⟩

theorem startPath_of_no_site (h : HelperScope.sitePrefix? path = none) :
    startPath true path = (if "prediction/".toList.isPrefixOf path then ['/'] else [])
      ∧ keptPath true path = path := by
  unfold startPath keptPath
  rw [h]
  exact ⟨rfl, rfl⟩

theorem ruleTarget_nginx :
    (HelperScope.mk config .nginx).ruleTarget path
      = .ok (startPath (config.isSet "jenkins_direct") path
          ++ keptPath (config.isSet "jenkins_direct") path) := by
  unfold HelperScope.ruleTarget HelperScope.servesDirectly
  cases hdirect : config.isSet "jenkins_direct" with
  | false => rfl
  | true =>
    cases hsite : HelperScope.sitePrefix? path with
    | none =>
      obtain ⟨hstart, hkept⟩ := startPath_of_no_site hsite
      rw [hstart, hkept]
      exact directPath_of_no_site hsite
    | some found =>
      obtain ⟨site, group, kept⟩ := found
      obtain ⟨hstart, hkept⟩ := startPath_of_site hsite
      rw [hstart, hkept]
      exact directPath_of_site hsite references_nginx (not_predictionPath (.inl rfl))

/-- httpd's rule has the references converted that the rule itself writes, and no others. -/
theorem ruleTarget_httpd
    (htable : ∀ site group kept, HelperScope.sitePrefix? path = some (site, group, kept) →
      config.isSet "jenkins_direct" → config.routingTable group = .ok table) :
    (HelperScope.mk config .httpd).ruleTarget path
      = .ok (toHttpd table (startPath (config.isSet "jenkins_direct") path)
          ++ keptPath (config.isSet "jenkins_direct") path) := by
  unfold HelperScope.ruleTarget HelperScope.servesDirectly
  cases hdirect : config.isSet "jenkins_direct" with
  | false => rfl
  | true =>
    cases hsite : HelperScope.sitePrefix? path with
    | none =>
      obtain ⟨hstart, hkept⟩ := startPath_of_no_site hsite
      rw [hstart, hkept]
      have hroot : toHttpd table (if "prediction/".toList.isPrefixOf path then ['/'] else [])
          = if "prediction/".toList.isPrefixOf path then ['/'] else [] := by
        split <;> rfl
      rw [hroot]
      exact directPath_of_no_site hsite
    | some found =>
      obtain ⟨site, group, kept⟩ := found
      obtain ⟨hstart, hkept⟩ := startPath_of_site hsite
      rw [hstart, hkept]
      obtain ⟨c, more, hhub, hc⟩ := httpdReference_eq_cons table "hub".toList
      refine directPath_of_site hsite (references_httpd (htable _ _ _ hsite hdirect)) ?_
      rw [toHttpd_hub, hhub]
      exact not_predictionPath hc

/-! ## Requests -/

theorem mem_of_mem_keptPath {direct : Bool} {c : Char} (h : c ∈ keptPath direct path) :
    c ∈ path := by
  cases direct with
  | false => exact h
  | true =>
    cases hsite : HelperScope.sitePrefix? path with
    | none => rwa [(startPath_of_no_site hsite).2] at h
    | some found =>
      obtain ⟨site, group, kept⟩ := found
      rw [(startPath_of_site hsite).2] at h
      obtain ⟨-, -, ⟨branch, rfl⟩, -⟩ := sitePrefix?_eq_some hsite
      exact List.mem_append_right _ (List.mem_append_right _ h)

/-- Both engines take the start of a target alike, and its end for itself. -/
theorem evaluate_target {captures : Captures} {direct : Bool} (hpercent : '%' ∉ path)
    (hstart : isLiteral (startPath direct path) ∨ table.isPlain ∧ captures.IsPlain) :
    Nginx.evaluate table captures (startPath direct path ++ keptPath direct path)
        = Nginx.evaluate table captures (startPath direct path)
          ++ Nginx.evaluate table captures (keptPath direct path)
      ∧ Httpd.evaluate table captures (toHttpd table (startPath direct path) ++ keptPath direct path)
        = Nginx.evaluate table captures (startPath direct path)
          ++ Httpd.evaluate table captures (keptPath direct path) := by
  cases direct with
  | false => exact ⟨rfl, rfl⟩
  | true =>
    cases hsite : HelperScope.sitePrefix? path with
    | none =>
      obtain ⟨hstartPath, hkept⟩ := startPath_of_no_site hsite
      rw [hstartPath, hkept]
      by_cases hprediction : "prediction/".toList.isPrefixOf path = true
      · have hroot : toHttpd table ['/'] = ['/'] := rfl
        rw [if_pos hprediction, hroot]
        refine ⟨replaceNamed_literal (by decide), ?_⟩
        obtain ⟨rest, rfl⟩ := List.isPrefixOf_iff_prefix.1 hprediction
        refine (Httpd.Evaluates.literal (by decide) (by decide) _ ?_).2
        rw [Httpd.expandVariables_of_not_mem hpercent]
        simp
      · rw [if_neg hprediction]
        exact ⟨rfl, rfl⟩
    | some found =>
      obtain ⟨site, group, kept⟩ := found
      obtain ⟨hstartPath, hkept⟩ := startPath_of_site hsite
      obtain ⟨hname, -, -, hslash⟩ := sitePrefix?_eq_some hsite
      rw [hstartPath] at hstart
      rw [hstartPath, hkept]
      rw [isLiteral_hub, Bool.false_eq_true, false_or] at hstart
      obtain ⟨htable, hcaptures⟩ := hstart
      refine ⟨replaceNamed_append fun c hc => ?_, ?_⟩
      · rw [hslash c hc]
        decide
      · -- what is kept begins with a slash, which no lookup of the start reaches over
        refine (Httpd.Evaluates.toHttpd htable hcaptures hname.isPlain_hub kept ?_).2
        cases kept with
        | nil => simp [Httpd.expandVariables]
        | cons c rest =>
          obtain rfl : c = '/' := hslash c rfl
          have hstep : Httpd.expandVariables captures ('/' :: rest)
              = '/' :: Httpd.expandVariables captures rest :=
            replaceTokens_char (Httpd.readVariable?_of_ne (.inl (by decide)))
          rw [hstep]
          simp

/-- What is written in front is read back from its numbered groups. -/
theorem closesGroups_start {direct : Bool}
    (hstart : isLiteral (startPath direct path) ∨ table.isPlain) :
    ClosesGroups (toHttpd table (startPath direct path)) := by
  cases direct with
  | false => exact .of_not_mem (by simp [startPath, toHttpd])
  | true =>
    cases hsite : HelperScope.sitePrefix? path with
    | none =>
      rw [(startPath_of_no_site hsite).1]
      split
      · exact .of_not_mem (show '%' ∉ ['/'] by decide)
      · exact .of_not_mem (show '%' ∉ [] by simp)
    | some found =>
      obtain ⟨site, group, kept⟩ := found
      obtain ⟨hname, -⟩ := sitePrefix?_eq_some hsite
      rw [(startPath_of_site hsite).1] at hstart ⊢
      rw [isLiteral_hub, Bool.false_eq_true, false_or] at hstart
      exact .toHttpd hstart hname.isPlain_hub

/-- A reference that the table does not have follows the request. -/
theorem exists_captures_ne {name kept : Text} (hname : .token name ∈ scan named? kept)
    (hget : table.get? (String.ofList name) = none) (written : Text) :
    ∃ captures : Captures, captures.IsPlain ∧ Nginx.evaluate table captures kept ≠ written := by
  refine ⟨fun _ => List.replicate (written.length + 1) 'x', ?_, fun heq => ?_⟩
  · intro name c hc
    rw [List.eq_of_mem_replicate hc]
    decide
  · -- a captured part that is longer than the text cannot be evaluated to it
    have hlength := length_le_ofPieces
      (Nginx.value table fun _ => List.replicate (written.length + 1) 'x') hname
    have hvalue : Nginx.value table (fun _ => List.replicate (written.length + 1) 'x') name
        = List.replicate (written.length + 1) 'x' := by
      unfold Nginx.value
      rw [hget]
    rw [hvalue, List.length_replicate] at hlength
    have := congrArg List.length heq
    unfold Nginx.evaluate replaceTokens at this
    omega

/-- The targets of a path lead a request to the same path exactly if nginx makes of the kept
part what httpd does, which reads no names in it. -/
theorem samePath_target_iff {captures : Captures} {direct : Bool} (hpercent : '%' ∉ path)
    (hstart : isLiteral (startPath direct path) ∨ table.isPlain ∧ captures.IsPlain) :
    SamePath table captures (startPath direct path ++ keptPath direct path)
        (renumber (toHttpd table (startPath direct path) ++ keptPath direct path))
      ↔ Nginx.evaluate table captures (keptPath direct path)
          = Httpd.answerLookups table (keptPath direct path) := by
  have hkept : '%' ∉ keptPath direct path := fun hmem => hpercent (mem_of_mem_keptPath hmem)
  have hgroups := (closesGroups_start (hstart.imp_right And.left)).append (.of_not_mem hkept)
  obtain ⟨hnginx, hhttpd⟩ := evaluate_target hpercent hstart
  unfold SamePath
  rw [unnumber_renumber hgroups.1, hnginx, hhttpd, Httpd.evaluate_of_not_mem hkept]
  exact List.append_right_inj _

end

/-- What a rule writes itself, both engines can read: it has no references, or the table and
the request hold none of httpd's characters. -/
def Legible (table : RoutingTable) (captures : Captures) (text : Text) : Prop :=
  isLiteral text ∨ table.isPlain ∧ captures.IsPlain

/-- Both engines have a rule for a text, or neither has. By their targets a request comes to
the same path exactly if nginx makes of the kept part of the path what httpd makes of it.
Without references in that part this is so for every request; with a reference that the
table does not have it is not so for some request. -/
theorem artifactRule_samePath_iff (config : Configuration) (host : String)
    (text pattern path : Text) (rest : List Text) (table : RoutingTable)
    (hhost : config.text "jenkins_host" = .ok host)
    (hargs : RequestRule.arguments 3 text = pattern :: path :: rest)
    (htable : config.routingTable (RoutingGroup.ofJob (path.takeWhile (· != '/'))) = .ok table)
    (hpercent : '%' ∉ path) :
    let start := startPath (config.isSet "jenkins_direct") path
    let kept := keptPath (config.isSet "jenkins_direct") path
    ∃ rn rh, (HelperScope.mk config .nginx).artifactRule text = .ok rn
      ∧ (HelperScope.mk config .httpd).artifactRule text = .ok rh
      ∧ (config.hasRule path (rest.headD []) = false → rn = [] ∧ rh = [])
      ∧ (config.hasRule path (rest.headD []) → ∃ p q,
        PairedRules pattern (config.ruleOrigin host) rn rh p q
          ∧ (∀ captures, Legible table captures start →
            (SamePath table captures p q
              ↔ Nginx.evaluate table captures kept = Httpd.answerLookups table kept))
          ∧ (∀ captures, Legible table captures start → '\x7b' ∉ kept →
            (∀ name, .token name ∉ scan named? kept) → SamePath table captures p q)
          ∧ (isLiteral start ∨ table.isPlain →
            ∀ name, .token name ∈ scan named? kept → table.get? (String.ofList name) = none →
              ∃ captures : Captures, captures.IsPlain ∧ ¬SamePath table captures p q)) := by
  intro start kept
  cases hrule : config.hasRule path (rest.headD []) with
  | false =>
    refine ⟨[], [], artifactRule_of_not_hasRule hargs hrule, artifactRule_of_not_hasRule hargs hrule,
      fun _ => ⟨rfl, rfl⟩, fun h => absurd h Bool.false_ne_true⟩
  | true =>
    have hgroup : ∀ site group kept, HelperScope.sitePrefix? path = some (site, group, kept) →
        config.isSet "jenkins_direct" → config.routingTable group = .ok table := by
      intro site group kept hsite _
      obtain ⟨-, rfl, -, -⟩ := sitePrefix?_eq_some hsite
      exact htable
    obtain ⟨rn, rh, hrn, hrh, hpaired⟩ := artifactRule_paired hargs hargs hrule hrule
      ruleTarget_nginx (ruleTarget_httpd hgroup) hhost
    refine ⟨rn, rh, hrn, hrh, fun h => absurd h.symm Bool.false_ne_true, fun _ => ?_⟩
    refine ⟨_, _, hpaired, fun captures hlegible => samePath_target_iff hpercent hlegible, ?_, ?_⟩
    · intro captures hlegible hbrace hnone
      refine (samePath_target_iff hpercent hlegible).2 ?_
      rw [Nginx.evaluate_of_no_reference hnone, Httpd.answerLookups_of_not_mem hbrace]
    · intro hwritten name hname hget
      obtain ⟨captures, hcaptures, hne⟩ :=
        exists_captures_ne hname hget (Httpd.answerLookups table kept)
      refine ⟨captures, hcaptures, fun hsame => hne ?_⟩
      exact (samePath_target_iff hpercent (hwritten.imp_right fun h => ⟨h, hcaptures⟩)).1 hsame

/-- A configuration with nothing but a job server. -/
def hostConfiguration : Configuration := ⟨[("jenkins_host", .string "h")]⟩

/-- Some request comes to different paths by the rules of a path with a name in it. -/
theorem artifactRule_samePath_iff_branch :
    ∃ rn rh p q, (HelperScope.mk hostConfiguration .nginx).artifactRule
        "^/x$ /$branch".toList = .ok rn
      ∧ (HelperScope.mk hostConfiguration .httpd).artifactRule "^/x$ /$branch".toList = .ok rh
      ∧ PairedRules "^/x$".toList (hostConfiguration.ruleOrigin "h") rn rh p q
      ∧ ∃ captures : Captures, captures.IsPlain
        ∧ ¬SamePath (.empty .visualization) captures p q := by
  obtain ⟨rn, rh, hrn, hrh, -, hrule⟩ := artifactRule_samePath_iff hostConfiguration "h"
    "^/x$ /$branch".toList "^/x$".toList "/$branch".toList [] (.empty .visualization)
    rfl (by decide) rfl (by decide)
  obtain ⟨p, q, hpaired, -, -, hsome⟩ := hrule (by decide)
  exact ⟨rn, rh, p, q, hrn, hrh, hpaired,
    hsome (.inl (by decide)) "branch".toList (by decide) rfl⟩

/-- A path with a named reference: the request's branch is in nginx's path, and its name is
left in httpd's. -/
theorem artifactRule_keeps_reference :
    let captures : Captures := fun name => if name = "branch".toList then "main".toList else []
    captures.IsPlain
      ∧ ∃ rn rh p q, (HelperScope.mk hostConfiguration .nginx).artifactRule
          "^/x$ /$branch".toList = .ok rn
        ∧ (HelperScope.mk hostConfiguration .httpd).artifactRule "^/x$ /$branch".toList = .ok rh
        ∧ PairedRules "^/x$".toList (hostConfiguration.ruleOrigin "h") rn rh p q
        ∧ Nginx.evaluate (.empty .visualization) captures p = "/main".toList
        ∧ Httpd.evaluate (.empty .visualization) captures (unnumber q) = "/$branch".toList
        ∧ ¬SamePath (.empty .visualization) captures p q := by
  refine ⟨fun name c hc => ?_, _, _, "/$branch".toList, "/$branch".toList, rfl, rfl,
    ⟨by decide, by decide⟩, by decide, by decide, by unfold SamePath; decide⟩
  simp only at hc
  split at hc
  · revert c
    decide
  · simp at hc

end HubRules
