import HubRules.Proofs.FileTree.Below
import HubRules.Proofs.Json.UniqueNames
import HubRules.Proofs.LookupMap.Lookups
import HubRules.Proofs.Project.Maps

/-!
# Lookups, declarations and files of maps

Rules look entries up in maps by name, other rules declare the maps of these names with their
files, and a build writes the files. Each of the three is put together from the routing tables on
its own; that they agree is the property of this module (`exists_mapsAgree`).
-/

namespace HubRules

open Outcome

/-- The directive that declares a map with its file in a folder. -/
def LookupMap.declaration (map : LookupMap) (folder : Text) : Text :=
  "RewriteMap ".toList ++ map.name.toList ++ " txt:".toList ++ folder ++ '/' :: map.fileName.toList

theorem LookupMap.declaration_eq (map : LookupMap) (folder : Text) :
    map.declaration folder = "RewriteMap ".toList ++ map.name.toList ++ " txt:".toList ++ folder
      ++ '/' :: map.name.toList ++ ".txt".toList := by
  unfold declaration fileName
  rw [String.toList_append, ← List.cons_append, ← List.append_assoc]

/-- The lookups, declarations and files of a configuration's maps agree. -/
structure MapsAgree (config : Configuration) (folder : String)
    (tables : RoutingGroup → RoutingTable) : Prop where
  /-- The maps to write are those of the groups, in the order of the groups. -/
  collected : config.lookupMaps
    = .ok (RoutingGroup.all.flatMap fun group => LookupMap.ofTable (tables group))
  /-- Every group declares its maps, in order, with the names of their files. -/
  declared : ∀ group, (HelperScope.mk config .httpd).branchMaps group.name.toList
    = .ok (Text.join ['\n']
      ((LookupMap.ofTable (tables group)).map (·.declaration folder.toList)))
  /-- No two maps have the same name, and no two files have. -/
  distinct : ∀ part ∈ [LookupMap.name, LookupMap.fileName],
    ((RoutingGroup.all.flatMap fun group => LookupMap.ofTable (tables group)).map part).Nodup
  /-- A text without opening braces is written for httpd so that it looks up declared maps only,
  if no lookup starts in an input or a default of the group. -/
  lookedUp : ∀ group text, '\x7b' ∉ text →
    Reference.IsClosed (tables group) →
    ∃ written, (HelperScope.mk config .httpd).references group text = .ok written
      ∧ ∀ name, Reference.LooksUp written name →
        ∃ map ∈ LookupMap.ofTable (tables group), name = map.name.toList
  /-- Maps that were written can all be read, if the names of their files are plain. -/
  kept : ∀ (project : Project) (resolution : Resolution) tree after paths,
    resolution.engine = .httpd → resolution.base = config →
    (∀ group, ∀ map ∈ LookupMap.ofTable (tables group), FilePath.IsPlain map.fileName) →
    (project.writeMaps resolution).on tree = (.ok paths, after) →
    ∀ group, ∀ map ∈ LookupMap.ofTable (tables group),
      after.readText (Project.mapPath (project.path project.settings.maps) map) = .ok map.content

/-! ## Names of maps -/

theorem RoutingGroup.underscore_not_mem (group : RoutingGroup) : '_' ∉ group.name.toList := by
  cases group <;> decide

theorem RoutingGroup.eq_of_name {group other : RoutingGroup} (h : group.name = other.name) :
    group = other := by
  revert h
  cases group <;> cases other <;> decide

/-- The name of a map tells its group and its entry. -/
theorem RoutingTable.eq_of_mapName {table other : RoutingTable} {entry entry' : String}
    (h : table.mapName entry = other.mapName entry') :
    table.group = other.group ∧ entry = entry' := by
  have htext := congrArg (fun name => Text.cut '_' name.toList) h
  simp only [mapName, String.toList_append, List.append_assoc,
    show "_".toList = ['_'] from rfl, List.singleton_append] at htext
  rw [Text.cut_eq_some_iff.2 ⟨rfl, table.group.underscore_not_mem⟩,
    Text.cut_eq_some_iff.2 ⟨rfl, other.group.underscore_not_mem⟩, Option.some.injEq,
    Prod.mk.injEq] at htext
  exact ⟨RoutingGroup.eq_of_name (String.toList_injective htext.1),
    String.toList_injective htext.2⟩

theorem Configuration.group_of_routingTable {config : Configuration} {group : RoutingGroup}
    {table : RoutingTable} (h : config.routingTable group = .ok table) : table.group = group := by
  unfold routingTable at h
  split at h
  · rw [← Except.ok.inj h]
    rfl
  · rw [← Except.ok.inj h]
    rfl
  · split at h
    · rw [← Except.ok.inj h]
      rfl
    · obtain ⟨entries, -, rfl⟩ := exists_of_map_eq_ok h
      rfl
    · cases h
  · cases h

section

variable {config : Configuration} {tables : RoutingGroup → RoutingTable} {folder : String}

theorem nodup_names (hunique : config.HasUniqueNames)
    (htables : ∀ group, config.routingTable group = .ok (tables group)) :
    ((RoutingGroup.all.flatMap fun group => LookupMap.ofTable (tables group)).map
      LookupMap.name).Nodup := by
  have hgroup := fun group => Configuration.group_of_routingTable (htables group)
  rw [List.Nodup, List.pairwise_map, List.pairwise_flatMap]
  constructor
  · intro group _
    have hentries := hunique.nodup_entries (htables group)
    rw [List.Nodup, List.pairwise_map] at hentries
    rw [LookupMap.ofTable, List.pairwise_map]
    exact hentries.imp fun hne heq => hne (RoutingTable.eq_of_mapName heq).2
  · have hall : RoutingGroup.all.Pairwise (· ≠ ·) := by decide
    refine hall.imp fun {group other} hne map hmap map' hmap' heq => hne ?_
    obtain ⟨entry, -, rfl⟩ := List.mem_map.1 hmap
    obtain ⟨entry', -, rfl⟩ := List.mem_map.1 hmap'
    have := (RoutingTable.eq_of_mapName heq).1
    rwa [hgroup, hgroup] at this

theorem nodup_fileNames {maps : List LookupMap} (h : (maps.map LookupMap.name).Nodup) :
    (maps.map LookupMap.fileName).Nodup := by
  rw [List.Nodup, List.pairwise_map] at h ⊢
  refine h.imp fun hne heq => hne ?_
  have htext := congrArg String.toList heq
  simp only [LookupMap.fileName, String.toList_append] at htext
  exact String.toList_injective (List.append_cancel_right htext)

/-! ## Agreement -/

theorem lookupMaps_eq (htables : ∀ group, config.routingTable group = .ok (tables group)) :
    config.lookupMaps
      = .ok (RoutingGroup.all.flatMap fun group => LookupMap.ofTable (tables group)) := by
  have hrun : RoutingGroup.all.mapM config.routingTable = .ok (RoutingGroup.all.map tables) := by
    rw [show config.routingTable = fun group => .ok (tables group) from funext htables]
    exact List.mapM_pure
  unfold Configuration.lookupMaps
  rw [hrun]
  simp only [bind, Except.bind, pure, Except.pure, List.flatMap_map]

theorem branchMaps_eq (htables : ∀ group, config.routingTable group = .ok (tables group))
    (hfolder : config.text "branch_maps_path" = .ok folder) (group : RoutingGroup) :
    (HelperScope.mk config .httpd).branchMaps group.name.toList
      = .ok (Text.join ['\n']
        ((LookupMap.ofTable (tables group)).map (·.declaration folder.toList))) := by
  have hread : RoutingGroup.read group.name.toList = .ok group := by
    cases group <;> rfl
  have hlines : (LookupMap.ofTable (tables group)).map (·.declaration folder.toList)
      = (tables group).entries.map fun entry =>
        let name := ((tables group).mapName entry.1).toList
        "RewriteMap ".toList ++ name ++ " txt:".toList ++ folder.toList
          ++ '/' :: name ++ ".txt".toList := by
    rw [LookupMap.ofTable, List.map_map]
    exact List.map_congr_left fun entry _ => LookupMap.declaration_eq _ folder.toList
  unfold HelperScope.branchMaps HelperScope.configText
  rw [hlines]
  simp only [hread, htables, hfolder, bind, Except.bind, mapError_ok, Except.map, pure, Except.pure]
  split
  · next hempty =>
    rw [List.isEmpty_iff.1 hempty]
    rfl
  · rfl

theorem exists_written (htables : ∀ group, config.routingTable group = .ok (tables group))
    {group : RoutingGroup} {text : Text} (htext : '\x7b' ∉ text)
    (hclosed : Reference.IsClosed (tables group)) :
    ∃ written, (HelperScope.mk config .httpd).references group text = .ok written
      ∧ ∀ name, Reference.LooksUp written name →
        ∃ map ∈ LookupMap.ofTable (tables group), name = map.name.toList := by
  refine ⟨Text.replaceTokens Reference.named? (Reference.httpdReference (tables group)) text, ?_,
    fun name hname => ?_⟩
  · unfold HelperScope.references Reference.write
    simp only [htables, bind, Except.bind, mapError_ok, pure, Except.pure]
  · obtain ⟨entry, hentry, rfl⟩ := Reference.exists_entry_of_looksUp htext hclosed hname
    exact ⟨_, List.mem_map.2 ⟨entry, hentry, rfl⟩, rfl⟩

/-- Maps whose files have different plain names do not share a place below a folder. -/
theorem pairwise_apart {maps : List LookupMap} (h : (maps.map LookupMap.fileName).Nodup)
    (hplain : ∀ map ∈ maps, FilePath.IsPlain map.fileName) (base : String) (tree : FileTree) :
    (maps.map (Project.mapPath base)).Pairwise tree.Apart := by
  rw [List.Nodup, List.pairwise_map] at h
  rw [List.pairwise_map]
  refine h.imp_of_mem fun {map other} hmap hother hne place hplace hplace' => hne ?_
  exact FileTree.eq_of_locate_join (hplain map hmap) (hplain other hother) hplace hplace'

/-- The lookups, declarations and files of the maps agree for every configuration whose routing
tables are well-formed and that has a folder for maps. -/
theorem exists_mapsAgree (hunique : config.HasUniqueNames)
    (htables : ∀ group, ∃ table, config.routingTable group = .ok table)
    (hfolder : config.text "branch_maps_path" = .ok folder) :
    ∃ tables, (∀ group, config.routingTable group = .ok (tables group))
      ∧ MapsAgree config folder tables := by
  obtain ⟨tables, htables⟩ := Classical.skolem.1 htables
  have hnames := nodup_names hunique htables
  refine ⟨tables, htables, lookupMaps_eq htables, branchMaps_eq htables hfolder, ?_,
    fun group text => exists_written htables, ?_⟩
  · simpa using ⟨hnames, nodup_fileNames hnames⟩
  · intro project resolution tree after paths hengine hbase hplain hrun group map hmap
    obtain ⟨maps, made, hmaps, -, hwrite⟩ :=
      (Project.on_writeMaps_eq_ok_iff (by rw [hengine]; rfl)).1 hrun
    obtain rfl : _ = maps := Except.ok.inj ((lookupMaps_eq htables).symm.trans (hbase ▸ hmaps))
    have hall : ∀ map ∈ RoutingGroup.all.flatMap fun group => LookupMap.ofTable (tables group),
        FilePath.IsPlain map.fileName := by
      intro map hmap
      obtain ⟨group, -, hmap⟩ := List.mem_flatMap.1 hmap
      exact hplain group map hmap
    have hapart := pairwise_apart (nodup_fileNames hnames) hall
      (project.path project.settings.maps) after
    rw [← Project.paths_of_writeMapsInto hwrite] at hapart
    have hgroup : group ∈ RoutingGroup.all := by cases group <;> decide
    exact Project.readText_of_writeMapsInto hwrite hapart map
      (List.mem_flatMap.2 ⟨group, hgroup, hmap⟩)

end

/-! ## Entries of one name in two groups -/

def mappingConfiguration (groups : Members) : Configuration :=
  ⟨[("branch_maps_path", .string "maps"), ("hub_mapping", .object groups)]⟩

def hubEntry (input line : String) : Json :=
  .object [("input", .string input), ("output", .object [("key", .string line)])]

theorem hubEntry_hasUniqueNames (input line : String) : (hubEntry input line).HasUniqueNames := by
  refine .object (by simp [Members.names]) (List.forall_mem_cons.2 ⟨.string input, ?_⟩)
  refine List.forall_mem_singleton.2 (.object (by simp [Members.names]) ?_)
  exact List.forall_mem_singleton.2 (.string line)

theorem mappingConfiguration_hasUniqueNames {groups : Members}
    (h : (Json.object groups).HasUniqueNames) : (mappingConfiguration groups).HasUniqueNames := by
  refine .object (by simp [mappingConfiguration, Members.names])
    (List.forall_mem_cons.2 ⟨.string "maps", ?_⟩)
  exact List.forall_mem_singleton.2 h

/-- Two groups with entries of one name, and another entry in one of them. -/
def groupsConfiguration : Configuration := mappingConfiguration [
  ("hub", .object [("branch", hubEntry "$branch" "master"), ("host", hubEntry "$host" "main")]),
  ("prediction", .object [("branch", hubEntry "$branch" "main")])]

theorem exists_mapsAgree_branch :
    groupsConfiguration.HasUniqueNames
      ∧ (∀ group, ∃ table, groupsConfiguration.routingTable group = .ok table)
      ∧ groupsConfiguration.text "branch_maps_path" = .ok "maps"
      ∧ ∃ tables, (∀ group, groupsConfiguration.routingTable group = .ok (tables group))
        ∧ MapsAgree groupsConfiguration "maps" tables
        ∧ (RoutingGroup.all.flatMap fun group => LookupMap.ofTable (tables group)) = [
          ⟨"hub_branch", "key master"⟩, ⟨"hub_host", "key main"⟩,
          ⟨"prediction_branch", "key main"⟩] := by
  have hunique : groupsConfiguration.HasUniqueNames := by
    refine mappingConfiguration_hasUniqueNames (.object (by decide) ?_)
    refine List.forall_mem_cons.2 ⟨.object (by decide) ?_,
      List.forall_mem_singleton.2 (.object (by decide) ?_)⟩
    · exact List.forall_mem_cons.2 ⟨hubEntry_hasUniqueNames _ _,
        List.forall_mem_singleton.2 (hubEntry_hasUniqueNames _ _)⟩
    · exact List.forall_mem_singleton.2 (hubEntry_hasUniqueNames _ _)
  have hok : ∀ group, (groupsConfiguration.routingTable group).isOk = true := by
    intro group
    cases group <;> decide +kernel
  have hfolder : groupsConfiguration.text "branch_maps_path" = .ok "maps" :=
    eq_ok_of_toOption (by decide +kernel)
  obtain ⟨tables, htables, hagree⟩ :=
    exists_mapsAgree hunique (fun group => exists_eq_ok (hok group)) hfolder
  have hmaps : groupsConfiguration.lookupMaps = .ok [⟨"hub_branch", "key master"⟩,
      ⟨"hub_host", "key main"⟩, ⟨"prediction_branch", "key main"⟩] :=
    eq_ok_of_toOption (by decide +kernel)
  exact ⟨hunique, fun group => exists_eq_ok (hok group), hfolder, tables, htables, hagree,
    Except.ok.inj (hagree.collected.symm.trans hmaps)⟩

/-! ## Where they do not agree -/

/-- A configuration with entries of the hub, and a folder for maps. -/
def hubConfiguration (entries : List (String × Json)) : Configuration :=
  mappingConfiguration [("hub", .object entries)]

theorem hubConfiguration_hasUniqueNames {entries : List (String × Json)}
    (hnames : (Members.names entries).Nodup)
    (hentries : ∀ entry ∈ entries, entry.2.HasUniqueNames) :
    (hubConfiguration entries).HasUniqueNames :=
  mappingConfiguration_hasUniqueNames
    (.object (by simp [Members.names]) (List.forall_mem_singleton.2 (.object hnames hentries)))

/-- Entries that do not keep to themselves: the input of the first one starts a lookup, and the
others have one file. -/
def sharingEntries : List (String × Json) := [
  ("a", hubEntry "$\x7bx:y\x7d" "first"), ("a/b", hubEntry "" "second"),
  ("a//b", hubEntry "" "third")]

def sharingMaps : List LookupMap :=
  [⟨"hub_a", "key first"⟩, ⟨"hub_a/b", "key second"⟩, ⟨"hub_a//b", "key third"⟩]

/-- The folder of maps, with the folder that two of the maps lie in. -/
def sharingTree : FileTree := ⟨[(["maps"], .folder), (["maps", "hub_a"], .folder)]⟩

/-- Without the conditions on inputs and on names of files, a lookup names a map that is not
declared, and a file does not hold what was written to it. -/
theorem undeclared_lookup_and_shared_file :
    (hubConfiguration sharingEntries).HasUniqueNames
      ∧ (∀ group, ∃ table, (hubConfiguration sharingEntries).routingTable group = .ok table)
      ∧ (hubConfiguration sharingEntries).text "branch_maps_path" = .ok "maps"
      ∧ (hubConfiguration sharingEntries).lookupMaps = .ok sharingMaps
      ∧ (∃ written, (HelperScope.mk (hubConfiguration sharingEntries) .httpd).references .hub
            "$a".toList = .ok written
          ∧ Reference.LooksUp written "x".toList ∧ "x" ∉ sharingMaps.map LookupMap.name)
      ∧ ∃ paths after, (Project.writeMapsInto "maps" sharingMaps).on sharingTree
            = (.ok paths, after)
          ∧ ∃ map ∈ sharingMaps,
            after.readText (Project.mapPath "maps" map) ≠ .ok map.content := by
  have hok : ∀ group, ((hubConfiguration sharingEntries).routingTable group).isOk = true := by
    intro group
    cases group <;> decide +kernel
  refine ⟨hubConfiguration_hasUniqueNames (by decide) ?_, fun group => exists_eq_ok (hok group),
    eq_ok_of_toOption (by decide +kernel), eq_ok_of_toOption (by decide +kernel), ?_, ?_⟩
  · simp only [sharingEntries, List.forall_mem_cons]
    exact ⟨hubEntry_hasUniqueNames _ _, hubEntry_hasUniqueNames _ _, hubEntry_hasUniqueNames _ _,
      by simp⟩
  · have hwritten : (HelperScope.mk (hubConfiguration sharingEntries) .httpd).references .hub
        "$a".toList = .ok "$\x7bhub_a:$\x7bx:y\x7d|\x7d".toList :=
      eq_ok_of_toOption (by decide +kernel)
    exact ⟨_, hwritten, ⟨by decide, "y\x7d|\x7d".toList, "$\x7bhub_a:".toList, by decide⟩,
      by decide⟩
  · have hruns : (Project.writeMapsInto "maps" sharingMaps).endsWith sharingTree (fun _ after =>
        (after.readText "maps/hub_a/b.txt").toOption = some "key third") = true := by
      decide +kernel
    obtain ⟨paths, after, hrun, hread⟩ := Build.exists_of_endsWith hruns
    refine ⟨paths, after, hrun, ⟨"hub_a/b", "key second"⟩, by decide, fun heq => ?_⟩
    have hpath : Project.mapPath "maps" ⟨"hub_a/b", "key second"⟩ = "maps/hub_a/b.txt" := by
      decide
    rw [hpath, eq_ok_of_toOption hread] at heq
    exact absurd (Except.ok.inj heq) (by decide)

end HubRules
