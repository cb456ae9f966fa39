import HubRules.Api
import HubRules.Proofs.Json.Strings

/-!
# Paths of predictions

The document of the interface lists the paths under which predictions are served as text, which
its template puts between brackets. Read as JSON there it is the list of these paths
(`values_predictionPaths`), as long as no key of the tables needs an escape: the text that is
written for the paths is theirs between quotes (`toList_intercalate_inQuotes`), and such text is
read back.
-/

namespace HubRules.Api

open Json

/-- The paths under which predictions are served: every hub of the table and then no hub, each
with every organization. Without organizations there is one empty path. -/
def servedPaths (table : RoutingTable) : List String :=
  if tableKeys table "branch_organization" = [] then [""]
  else (tableKeys table "hub" ++ [""]).flatMap fun hub =>
    (tableKeys table "branch_organization").map fun organization => hub ++ organization

/-- Neither the hubs nor the organizations of a table need an escape. -/
def HasVerbatimKeys (table : RoutingTable) : Prop :=
  (∀ hub ∈ tableKeys table "hub", IsVerbatim hub.toList) ∧
    ∀ organization ∈ tableKeys table "branch_organization", IsVerbatim organization.toList

variable {table : RoutingTable}

theorem isVerbatim_of_mem_servedPaths (h : HasVerbatimKeys table) :
    ∀ path ∈ servedPaths table, IsVerbatim path.toList := by
  intro path hpath
  unfold servedPaths at hpath
  split at hpath
  · rw [List.mem_singleton.1 hpath]
    exact nofun
  · obtain ⟨hub, hhub, hpath⟩ := List.mem_flatMap.1 hpath
    obtain ⟨organization, horganization, rfl⟩ := List.mem_map.1 hpath
    have hverbatim : IsVerbatim hub.toList := by
      rcases List.mem_append.1 hhub with hhub | hhub
      · exact h.1 hub hhub
      · rw [List.mem_singleton.1 hhub]
        exact nofun
    rw [String.toList_append]
    intro c hc
    rcases List.mem_append.1 hc with hc | hc
    · exact hverbatim c hc
    · exact h.2 organization horganization c hc

/-! ## Written paths -/

def inQuotes (path : String) : String := "\"" ++ path ++ "\""

theorem toList_inQuotes (path : String) : (inQuotes path).toList = quoted path.toList := by
  simp [inQuotes, quoted]

theorem toList_intercalate_inQuotes (paths : List String) :
    (", ".intercalate (paths.map inQuotes)).toList = Reader.quotedItems paths := by
  have hparts : (paths.map inQuotes).map String.toList =
      paths.map fun path => quoted path.toList := by
    simp [toList_inQuotes]
  rw [Text.toList_intercalate, hparts, Reader.quotedItems]

theorem predictionPaths_eq {base : Configuration}
    (htable : base.routingTable .prediction = .ok table) :
    predictionPaths base = .ok
      (if tableKeys table "branch_organization" = [] then []
        else (servedPaths table).map inQuotes) := by
  have hpaths : predictionPaths base = .ok
      ((tableKeys table "hub" ++ [""]).flatMap fun hub =>
        (tableKeys table "branch_organization").map fun organization =>
          "\"" ++ hub ++ organization ++ "\"") := by
    rw [predictionPaths, htable]
    rfl
  rw [hpaths, servedPaths]
  split
  · next hnone => simp [hnone]
  · simp [List.map_flatMap, String.append_assoc, Function.comp_def, inQuotes]

theorem exists_servedPaths_eq (table : RoutingTable) :
    ∃ path more, servedPaths table = path :: more := by
  refine List.exists_cons_of_ne_nil ?_
  unfold servedPaths
  split
  · exact List.cons_ne_nil _ _
  · next hsome => simpa using fun _ => hsome

/-- The two values of the document: all served paths between quotes, and the first of them. -/
theorem exists_values {resolution : Resolution}
    (htable : resolution.base.routingTable .prediction = .ok table) {path : String}
    {more : List String} (hserved : servedPaths table = path :: more) :
    ∃ members : Members, values resolution = .ok (.object members)
      ∧ members.get? "prediction_paths"
        = some (.string (", ".intercalate ((path :: more).map inQuotes)))
      ∧ members.get? "prediction_path" = some (.string (inQuotes path)) := by
  have hpaths := predictionPaths_eq htable
  have hdistinct : "prediction_paths" ≠ "prediction_path" := by decide
  rw [hserved] at hpaths
  let config := resolution.base.resolveUrls (.literal organizationParameter)
  refine ⟨(config.members.set "prediction_paths"
    (.string (", ".intercalate ((path :: more).map inQuotes)))).set "prediction_path"
      (.string (inQuotes path)), ?_, ?_, ?_⟩
  · rw [values, hpaths]
    -- without organizations the text of no paths is that of the empty path
    by_cases hnone : tableKeys table "branch_organization" = []
    · obtain ⟨rfl, rfl⟩ : "" = path ∧ [] = more := by simpa [servedPaths, hnone] using hserved
      rw [if_pos hnone]
      rfl
    · rw [if_neg hnone]
      rfl
  · rw [Members.get?_set, if_neg hdistinct, Members.get?_set, if_pos rfl]
  · rw [Members.get?_set, if_pos rfl]

/-- Between brackets the paths of the document are the JSON list of the paths under which
predictions are served, and the one path is the first of this list. -/
theorem values_predictionPaths {resolution : Resolution}
    (htable : resolution.base.routingTable .prediction = .ok table)
    (hkeys : HasVerbatimKeys table) :
    ∃ (members : Members) (paths path : String),
      values resolution = .ok (.object members)
      ∧ members.get? "prediction_paths" = some (.string paths)
      ∧ members.get? "prediction_path" = some (.string path)
      ∧ parse ('[' :: (paths.toList ++ [']'])) = .ok (.ofStrings (servedPaths table))
      ∧ ∃ first, (servedPaths table).head? = some first
        ∧ parse path.toList = .ok (.string first) := by
  obtain ⟨first, more, hserved⟩ := exists_servedPaths_eq table
  obtain ⟨members, hvalues, hpaths, hpath⟩ := exists_values htable hserved
  have hverbatim := isVerbatim_of_mem_servedPaths hkeys
  rw [hserved] at hverbatim ⊢
  refine ⟨members, _, _, hvalues, hpaths, hpath, ?_, first, rfl, ?_⟩
  · rw [toList_intercalate_inQuotes]
    exact parse_quotedItems hverbatim
  · rw [toList_inQuotes]
    exact parse_quoted (hverbatim first List.mem_cons_self)

def hubTable : RoutingTable where
  group := .prediction
  entries := [
    ("hub", ⟨"$hub", none, [("ictu-", .string "ictu")]⟩),
    ("branch_organization", ⟨"$organization", some "a", [("a", .string "master"), ("b", .null)]⟩)]

def hubResolution : Resolution where
  source := "config.json"
  base := ⟨[("hub_mapping", .object [("prediction", .object [
    ("hub", .object [("input", .string "$hub"), ("output", .object [("ictu-", .string "ictu")])]),
    ("branch_organization", .object [("input", .string "$organization"), ("default", .string "a"),
      ("output", .object [("a", .string "master"), ("b", .null)])])])])]⟩
  engine := .httpd
  environment := none
  displayMode := .remove

theorem values_predictionPaths_hub :
    hubResolution.base.routingTable .prediction = .ok hubTable ∧ HasVerbatimKeys hubTable
      ∧ ∃ (members : Members) (paths path : String),
        values hubResolution = .ok (.object members)
        ∧ members.get? "prediction_paths" = some (.string paths)
        ∧ members.get? "prediction_path" = some (.string path)
        ∧ parse ('[' :: (paths.toList ++ [']'])) = .ok (.ofStrings ["ictu-a", "ictu-b", "a", "b"])
        ∧ ∃ first, ["ictu-a", "ictu-b", "a", "b"].head? = some first
          ∧ parse path.toList = .ok (.string first) := by
  have htable : hubResolution.base.routingTable .prediction = .ok hubTable := rfl
  have hkeys : HasVerbatimKeys hubTable := ⟨by decide, by decide⟩
  have hserved : servedPaths hubTable = ["ictu-a", "ictu-b", "a", "b"] := by decide
  have hvalues := values_predictionPaths htable hkeys
  rw [hserved] at hvalues
  exact ⟨htable, hkeys, hvalues⟩

end HubRules.Api
