import HubRules.Proofs.Outcome
import HubRules.Proofs.Routing.ArtifactRoute

/-!
# Splitting job paths

A job path is split before the references of its parts are written. Since no name of a reference
goes on behind a slash, the parts put together again are the whole text with its references
written, whatever the inputs and defaults of the table bring in (`jobPath_references`). A text
without a file has one slash more behind its branch.
-/

namespace HubRules

open Outcome Reference Text

/-- The slash that a text with one slash lacks before its file. -/
def JobPath.fileSlash (text : Text) : Text := if text.count '/' = 1 then ['/'] else []

section

variable {config : Configuration} {table : RoutingTable} {text : Text} {parts : JobPath}

theorem JobPath.job_eq_takeWhile (hparts : JobPath.read? text = some parts) :
    parts.job = text.takeWhile (· != '/') := by
  obtain ⟨hjob, -, htext⟩ := JobPath.read?_eq_some hparts
  have hstop (rest : Text) : (parts.job ++ '/' :: rest).takeWhile (· != '/') = parts.job :=
    takeWhile_append_stop (ne_of_not_mem hjob) (by simp)
  rcases htext with ⟨htext, -⟩ | htext <;> rw [htext, hstop]

theorem JobPath.toText_of_read? (hparts : JobPath.read? text = some parts) :
    parts.toText = text ++ JobPath.fileSlash text := by
  obtain ⟨hjob, hbranch, ⟨rfl, hfile⟩ | rfl⟩ := JobPath.read?_eq_some hparts
  · have hone : (parts.job ++ '/' :: parts.branch).count '/' = 1 := by
      simp [List.count_eq_zero.2 hjob, List.count_eq_zero.2 hbranch]
    simp [JobPath.fileSlash, JobPath.toText, hone, hfile]
  · have hmore : (parts.job ++ '/' :: (parts.branch ++ '/' :: parts.file)).count '/' ≠ 1 := by
      simp only [List.count_append, List.count_cons_self]
      omega
    rw [JobPath.fileSlash, if_neg hmore, List.append_nil]
    rfl

theorem JobPath.exists_read? (hslash : '/' ∈ text) : ∃ parts, JobPath.read? text = some parts := by
  unfold JobPath.read?
  cases hcut : cut '/' text with
  | none => exact absurd hslash (cut_eq_none_iff.1 hcut)
  | some found => exact ⟨_, rfl⟩

theorem references_httpd_error {group : RoutingGroup} {cause : ConfigError}
    (htable : config.routingTable group = .error cause) :
    (HelperScope.mk config .httpd).references group text = .error (.configuration cause) := by
  unfold HelperScope.references Reference.write
  rw [htable]
  rfl

/-- Without a table no part of a job path is written. -/
theorem jobPath_httpd_error {cause : ConfigError} (hparts : JobPath.read? text = some parts)
    (htable : config.routingTable (RoutingGroup.ofJob parts.job) = .error cause) :
    (HelperScope.mk config .httpd).jobPath text = .error (.configuration cause) := by
  unfold HelperScope.jobPath
  rw [hparts]
  simp only [references_httpd_error htable]
  rfl

theorem toHttpd_fileSlash (rest : Text) :
    toHttpd table (text ++ JobPath.fileSlash rest)
      = toHttpd table text ++ JobPath.fileSlash rest := by
  unfold JobPath.fileSlash
  split
  · exact toHttpd_slash text []
  · rw [List.append_nil, List.append_nil]

end

/-- The parts of a job path with their references written are the text with its references
written, for the routing group of its job: put together at slashes they give the same text, with a
slash at its end where the text has one slash only, or both fail for the same reason. -/
theorem jobPath_references (scope : HelperScope) {text : Text} (hslash : '/' ∈ text) :
    SameOutcome (fun parts written => parts.toText = written ++ JobPath.fileSlash text)
      (scope.jobPath text)
      (scope.references (RoutingGroup.ofJob (text.takeWhile (· != '/'))) text) := by
  obtain ⟨parts, hparts⟩ := JobPath.exists_read? hslash
  rw [← JobPath.job_eq_takeWhile hparts]
  obtain ⟨config, engine⟩ := scope
  cases engine with
  | nginx =>
    rw [jobPath_nginx hparts]
    exact .ok (JobPath.toText_of_read? hparts)
  | httpd =>
    cases htable : config.routingTable (RoutingGroup.ofJob parts.job) with
    | error cause =>
      rw [jobPath_httpd_error hparts htable, references_httpd_error htable]
      exact .error _
    | ok table =>
      rw [jobPath_httpd hparts htable, references_httpd htable]
      refine .ok ?_
      calc (parts.toHttpd table).toText
          = toHttpd table parts.toText := toHttpd_toText.symm
        _ = toHttpd table (text ++ JobPath.fileSlash text) := by
          rw [JobPath.toText_of_read? hparts]
        _ = toHttpd table text ++ JobPath.fileSlash text := toHttpd_fileSlash text

def slashWritten : Text :=
  "prediction/$\x7bprediction_branch:%\x7bENV:MATCH_ORGANIZATION\x7d|feature/x\x7d".toList

/-- The lookup of a branch brings in a slash, and one more comes behind it. -/
theorem jobPath_references_slash :
    '/' ∈ "prediction/$branch".toList
      ∧ (HelperScope.mk slashConfiguration .httpd).references .prediction "prediction/$branch".toList
        = .ok slashWritten
      ∧ ∃ parts, (HelperScope.mk slashConfiguration .httpd).jobPath "prediction/$branch".toList
          = .ok parts
        ∧ parts.toText = slashWritten ++ ['/'] := by
  have hslash : '/' ∈ "prediction/$branch".toList := by decide
  have hsame := jobPath_references (HelperScope.mk slashConfiguration .httpd) hslash
  have hwritten : (HelperScope.mk slashConfiguration .httpd).references
      (RoutingGroup.ofJob ("prediction/$branch".toList.takeWhile (· != '/')))
      "prediction/$branch".toList = .ok slashWritten := rfl
  rw [hwritten] at hsame
  exact ⟨hslash, rfl, hsame.exists_ok⟩

end HubRules
