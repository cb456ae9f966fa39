import HubRules.Helper.Artifact
import HubRules.Proofs.Routing.Evaluation

/-!
# Artifact paths in both engines

The path that is written for httpd is the path that is written for nginx with its references
converted (`artifactPath_httpd`): literal text and slashes part the references of job, branch
and file. So both evaluate to the same path for every request
(`artifactPath_evaluates_alike`).
-/

namespace HubRules

open Reference Text

/-- Whether both engines take a text as it stands. -/
def Reference.isLiteral (text : Text) : Bool := text.all fun c => !isReserved c && c != '$'

namespace JobPath

def toText (parts : JobPath) : Text := parts.job ++ '/' :: (parts.branch ++ '/' :: parts.file)

/-- What stands before the job below the job server. -/
def jobStart : ArtifactKind → Text
  | .report => "/job/build-".toList
  | .artifact => "/job/create-".toList

/-- What stands before the file below the job server. -/
def fileStart : ArtifactKind → Text
  | .report => "/Visualization/".toList
  | .artifact => "/lastStableBuild/artifact/".toList

/-- The path of an artifact below the job server. -/
def below (kind : ArtifactKind) (parts : JobPath) : Text :=
  jobStart kind ++ (parts.job ++ ("/job/".toList ++ (parts.branch
    ++ (fileStart kind ++ parts.file))))

/-- The path of an artifact below a job server, or in a direct tree if there is none. -/
def locate (kind : ArtifactKind) (server? : Option Text) (parts : JobPath) : Text :=
  server?.elim parts.toText (· ++ parts.below kind)

end JobPath

/-- The job path with the references of its parts written for httpd. -/
def JobPath.toHttpd (table : RoutingTable) (parts : JobPath) : JobPath :=
  ⟨Reference.toHttpd table parts.job, Reference.toHttpd table parts.branch,
    Reference.toHttpd table parts.file⟩

/-- The server below which a configuration has its artifacts; a direct tree has none. -/
def Configuration.artifactServer (config : Configuration) : Except ConfigError (Option Text) :=
  if config.isSet "jenkins_direct" then .ok none
  else (config.text "jenkins_path").map fun server => some server.toList

section

variable {config : Configuration} {table : RoutingTable} {group : RoutingGroup} {text : Text}
  {parts : JobPath} {kind : ArtifactKind} {server? : Option Text}

theorem references_nginx : (HelperScope.mk config .nginx).references group text = .ok text := rfl

theorem references_httpd (htable : config.routingTable group = .ok table) :
    (HelperScope.mk config .httpd).references group text = .ok (toHttpd table text) := by
  unfold HelperScope.references Reference.write
  rw [htable]
  rfl

theorem jobPath_nginx (hparts : JobPath.read? text = some parts) :
    (HelperScope.mk config .nginx).jobPath text = .ok parts := by
  unfold HelperScope.jobPath
  rw [hparts]
  rfl

theorem jobPath_httpd (hparts : JobPath.read? text = some parts)
    (htable : config.routingTable (RoutingGroup.ofJob parts.job) = .ok table) :
    (HelperScope.mk config .httpd).jobPath text = .ok (parts.toHttpd table) := by
  unfold HelperScope.jobPath
  rw [hparts]
  simp only [references_httpd htable]
  rfl

theorem artifactPath_eq {engine : Engine} {written : JobPath}
    (hserver : config.artifactServer = .ok server?)
    (hwritten : (HelperScope.mk config engine).jobPath text = .ok written) :
    (HelperScope.mk config engine).artifactPath kind text = .ok (written.locate kind server?) := by
  unfold HelperScope.artifactPath
  rw [hwritten]
  unfold Configuration.artifactServer at hserver
  cases hdirect : config.isSet "jenkins_direct" with
  | true =>
    rw [hdirect] at hserver
    obtain rfl : none = server? := by simpa using hserver
    simp only [HelperScope.servesDirectly, hdirect, JobPath.locate, JobPath.toText]
    exact congrArg Except.ok (List.append_assoc ..)
  | false =>
    rw [hdirect] at hserver
    simp only [Bool.false_eq_true, if_false] at hserver
    cases hpath : config.text "jenkins_path" with
    | error cause => simp [hpath, Except.map] at hserver
    | ok path =>
      rw [hpath] at hserver
      obtain rfl : some path.toList = server? := by simpa [Except.map] using hserver
      simp only [HelperScope.servesDirectly, hdirect, HelperScope.configText, hpath]
      unfold JobPath.locate JobPath.below
      simp only [Option.elim_some, ← List.append_assoc]
      cases kind <;> rfl

/-! ## Conversion part by part -/

theorem toHttpd_append_literal {literal rest : Text} (h : '$' ∉ literal)
    (hslash : literal.head? = some '/') :
    toHttpd table (text ++ (literal ++ rest))
      = toHttpd table text ++ (literal ++ toHttpd table rest) := by
  have hrest : ∀ c ∈ (literal ++ rest).head?, isNameChar c = false := by
    intro c hc
    rw [List.head?_append, hslash] at hc
    obtain rfl : '/' = c := by simpa using hc
    decide
  unfold toHttpd
  rw [replaceNamed_append hrest, replaceNamed_literal h]

theorem toHttpd_slash (text rest : Text) :
    toHttpd table (text ++ '/' :: rest) = toHttpd table text ++ '/' :: toHttpd table rest :=
  @toHttpd_append_literal table text ['/'] rest (by decide) rfl

theorem toHttpd_literal {literal rest : Text} (h : '$' ∉ literal) :
    toHttpd table (literal ++ rest) = literal ++ toHttpd table rest :=
  replaceNamed_literal h

theorem toHttpd_toText : toHttpd table parts.toText = (parts.toHttpd table).toText := by
  unfold JobPath.toText
  rw [toHttpd_slash, toHttpd_slash]
  rfl

theorem toHttpd_below : toHttpd table (parts.below kind) = (parts.toHttpd table).below kind := by
  unfold JobPath.below
  rw [toHttpd_literal (by cases kind <;> decide),
    toHttpd_append_literal (by decide) (by decide),
    toHttpd_append_literal (by cases kind <;> decide) (by cases kind <;> decide)]
  rfl

theorem toHttpd_locate (hserver : ∀ server ∈ server?, '$' ∉ server) :
    toHttpd table (parts.locate kind server?) = (parts.toHttpd table).locate kind server? := by
  cases server? with
  | none => exact toHttpd_toText
  | some server =>
    simp only [JobPath.locate, Option.elim_some]
    rw [toHttpd_literal (hserver server rfl), toHttpd_below]

/-- The path written for httpd is the one written for nginx with its references converted. -/
theorem artifactPath_httpd (hparts : JobPath.read? text = some parts)
    (htable : config.routingTable (RoutingGroup.ofJob parts.job) = .ok table)
    (hserver : config.artifactServer = .ok server?) (hliteral : ∀ server ∈ server?, '$' ∉ server) :
    (HelperScope.mk config .httpd).artifactPath kind text
      = .ok (toHttpd table (parts.locate kind server?)) := by
  rw [artifactPath_eq hserver (jobPath_httpd hparts htable), toHttpd_locate hliteral]

/-! ## Plain paths -/

theorem isPlain_append {rest : Text} (hrest : ∀ c ∈ rest.head?, isNameChar c = false) :
    isPlain (text ++ rest) ↔ isPlain text ∧ isPlain rest := by
  simp only [isPlain, List.all_append, scan_named_append hrest, Bool.and_eq_true]
  exact and_and_and_comm

theorem isPlain_literal {literal rest : Text} (h : isLiteral literal) :
    isPlain (literal ++ rest) ↔ isPlain rest := by
  induction literal with
  | nil => rfl
  | cons c cs ih =>
    simp only [isLiteral, List.all_cons, Bool.and_eq_true, Bool.not_eq_true', bne_iff_ne] at h
    obtain ⟨⟨hreserved, hdollar⟩, hcs⟩ := h
    rw [List.cons_append, ← ih hcs]
    simp [isPlain, scan_char (named?_of_ne hdollar), hreserved]

theorem JobPath.read?_eq_some (h : JobPath.read? text = some parts) :
    '/' ∉ parts.job ∧ '/' ∉ parts.branch ∧
      (text = parts.job ++ '/' :: parts.branch ∧ parts.file = []
        ∨ text = parts.job ++ '/' :: (parts.branch ++ '/' :: parts.file)) := by
  unfold JobPath.read? at h
  cases hcut : cut '/' text with
  | none => simp [hcut] at h
  | some found =>
    obtain ⟨job, rest⟩ := found
    obtain ⟨rfl, hjob⟩ := cut_eq_some_iff.1 hcut
    cases hrest : cut '/' rest with
    | none =>
      obtain rfl : JobPath.mk job rest [] = parts := by simpa [hcut, hrest] using h
      exact ⟨hjob, cut_eq_none_iff.1 hrest, .inl ⟨rfl, rfl⟩⟩
    | some found =>
      obtain ⟨branch, file⟩ := found
      obtain ⟨rfl, hbranch⟩ := cut_eq_some_iff.1 hrest
      obtain rfl : JobPath.mk job branch file = parts := by simpa [hcut, hrest] using h
      exact ⟨hjob, hbranch, .inr rfl⟩

theorem isPlain_append_literal {literal rest : Text} (h : isLiteral literal)
    (hslash : literal.head? = some '/') :
    isPlain (text ++ (literal ++ rest)) ↔ isPlain text ∧ isPlain rest := by
  have hrest : ∀ c ∈ (literal ++ rest).head?, isNameChar c = false := by
    intro c hc
    rw [List.head?_append, hslash] at hc
    obtain rfl : '/' = c := by simpa using hc
    decide
  rw [isPlain_append hrest, isPlain_literal h]

theorem isPlain_slash (text rest : Text) :
    isPlain (text ++ '/' :: rest) ↔ isPlain text ∧ isPlain rest :=
  @isPlain_append_literal text ['/'] rest (by decide) rfl

theorem JobPath.isPlain_parts (hparts : JobPath.read? text = some parts) (h : isPlain text) :
    isPlain parts.job ∧ isPlain parts.branch ∧ isPlain parts.file := by
  obtain ⟨-, -, ⟨htext, hfile⟩ | htext⟩ := JobPath.read?_eq_some hparts
  · rw [htext, isPlain_slash] at h
    exact ⟨h.1, h.2, by rw [hfile]; decide⟩
  · rw [htext, isPlain_slash, isPlain_slash] at h
    exact h

theorem JobPath.isPlain_toText (hparts : JobPath.read? text = some parts) (h : isPlain text) :
    isPlain parts.toText := by
  unfold JobPath.toText
  rw [isPlain_slash, isPlain_slash]
  exact JobPath.isPlain_parts hparts h

theorem JobPath.isPlain_below (hparts : JobPath.read? text = some parts) (h : isPlain text) :
    isPlain (parts.below kind) := by
  have hplain := JobPath.isPlain_parts hparts h
  unfold JobPath.below
  rw [isPlain_literal (by cases kind <;> decide), isPlain_append_literal (by decide) (by decide),
    isPlain_append_literal (by cases kind <;> decide) (by cases kind <;> decide)]
  exact hplain

theorem JobPath.below_eq_cons (kind : ArtifactKind) (parts : JobPath) :
    ∃ rest, parts.below kind = '/' :: rest := by
  cases kind <;> exact ⟨_, rfl⟩

/-- Both engines evaluate a path alike below a server that neither of them expands. -/
theorem evaluate_locate {captures : Captures} (hparts : JobPath.read? text = some parts)
    (htext : isPlain text) (hentries : table.isPlain) (hcaptures : captures.IsPlain)
    (hserver : ∀ server ∈ server?, '$' ∉ server ∧ '\x7b' ∉ server) :
    Httpd.evaluate table captures (toHttpd table (parts.locate kind server?))
      = Nginx.evaluate table captures (parts.locate kind server?) := by
  cases server? with
  | none => exact Httpd.evaluate_toHttpd hentries hcaptures (JobPath.isPlain_toText hparts htext)
  | some server =>
    obtain ⟨hdollar, hbrace⟩ := hserver server rfl
    obtain ⟨rest, hrest⟩ := JobPath.below_eq_cons kind parts
    have hslash : toHttpd table (parts.below kind) = '/' :: toHttpd table rest := by
      rw [hrest]
      exact replaceNamed_cons (by decide)
    have hnginx : Nginx.evaluate table captures (server ++ parts.below kind)
        = server ++ Nginx.evaluate table captures (parts.below kind) :=
      replaceNamed_literal hdollar
    simp only [JobPath.locate, Option.elim_some]
    rw [toHttpd_literal hdollar, hslash, Httpd.evaluate_before_slash hbrace, ← hslash, hnginx,
      Httpd.evaluate_toHttpd hentries hcaptures (JobPath.isPlain_below hparts htext)]

theorem artifactServer_eq (p : Text → Prop)
    (h : config.isSet "jenkins_direct" = false →
      ∃ server, config.text "jenkins_path" = .ok server ∧ p server.toList) :
    ∃ server?, config.artifactServer = .ok server? ∧ ∀ server ∈ server?, p server := by
  unfold Configuration.artifactServer
  cases hdirect : config.isSet "jenkins_direct" with
  | true => exact ⟨none, rfl, by simp⟩
  | false =>
    obtain ⟨server, hserver, hp⟩ := h hdirect
    refine ⟨some server.toList, by rw [hserver]; rfl, ?_⟩
    rintro _ ⟨rfl⟩
    exact hp

end

/-- For every request both engines reach the same artifact: the path written for httpd
evaluates there to what the path written for nginx evaluates to. -/
theorem artifactPath_evaluates_alike (config : Configuration) (kind : ArtifactKind) (text : Text)
    (parts : JobPath) (table : RoutingTable) (captures : Captures)
    (hparts : JobPath.read? text = some parts)
    (htable : config.routingTable (RoutingGroup.ofJob parts.job) = .ok table)
    (hserver : config.isSet "jenkins_direct" = false → ∃ server,
      config.text "jenkins_path" = .ok server ∧ '$' ∉ server.toList ∧ '\x7b' ∉ server.toList)
    (htext : isPlain text) (hentries : table.isPlain) (hcaptures : captures.IsPlain) :
    ∃ p q, (HelperScope.mk config .nginx).artifactPath kind text = .ok p
      ∧ (HelperScope.mk config .httpd).artifactPath kind text = .ok q
      ∧ Nginx.evaluate table captures p = Httpd.evaluate table captures q := by
  obtain ⟨server?, hpath, hliteral⟩ :=
    artifactServer_eq (fun server => '$' ∉ server ∧ '\x7b' ∉ server) hserver
  refine ⟨_, _, artifactPath_eq hpath (jobPath_nginx hparts),
    artifactPath_httpd hparts htable hpath fun server h => (hliteral server h).1, ?_⟩
  exact (evaluate_locate hparts htext hentries hcaptures hliteral).symm

/-- A configuration whose prediction branches depend on the organization. -/
def branchConfiguration : Configuration := ⟨[
  ("jenkins_path", .string "/jenkins"),
  ("hub_mapping", .object [("prediction", .object [("branch", .object [
    ("input", .string "$organization"), ("default", .string "$organization-master"),
    ("output", .object [("ictu", .string "release")])])])])]⟩

def branchTable : RoutingTable := ⟨.prediction, [("branch",
  ⟨"$organization", some "$organization-master", [("ictu", .string "release")]⟩)]⟩

def branchCaptures : Captures := fun name =>
  if name = "organization".toList then "ictu".toList else []

theorem branchCaptures_isPlain : branchCaptures.IsPlain := by
  intro name c hc
  unfold branchCaptures at hc
  split at hc
  · revert c
    decide
  · simp at hc

theorem artifactPath_evaluates_alike_branch :
    ∃ p q, (HelperScope.mk branchConfiguration .nginx).artifactPath .report
        "prediction/$branch/$organization.json".toList = .ok p
      ∧ (HelperScope.mk branchConfiguration .httpd).artifactPath .report
        "prediction/$branch/$organization.json".toList = .ok q
      ∧ Nginx.evaluate branchTable branchCaptures p
        = Httpd.evaluate branchTable branchCaptures q :=
  artifactPath_evaluates_alike branchConfiguration .report
    "prediction/$branch/$organization.json".toList
    ⟨"prediction".toList, "$branch".toList, "$organization.json".toList⟩ branchTable
    branchCaptures (by decide) rfl (fun _ => ⟨"/jenkins", rfl, by decide, by decide⟩)
    (by decide) (by decide) branchCaptures_isPlain

end HubRules
