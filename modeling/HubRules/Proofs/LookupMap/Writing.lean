import HubRules.Proofs.LookupMap.Agreement

/-!
# Writing all maps or none

The maps of a configuration are collected before the first one is written. So a configuration with
a routing table that cannot be read leaves the tree as it is, whatever stands in the other tables.
Where writing ends well, the tree holds every map in its own file, and no other file has changed
(`writeMaps_all_or_nothing`).
-/

namespace HubRules

open Outcome

variable {config : Configuration} {group : RoutingGroup} {maps : List LookupMap}

/-! ## Collecting maps -/

theorem Configuration.lookupMaps_of_error {cause : ConfigError}
    (h : config.routingTable group = .error cause) : ∃ first, config.lookupMaps = .error first := by
  cases hmaps : config.lookupMaps with
  | error first => exact ⟨first, rfl⟩
  | ok maps =>
    obtain ⟨tables, htables, -⟩ := bind_eq_ok_iff.1 hmaps
    -- the tables are read one after the other, so that one of them is the one of the group
    have hread : ∀ g ∈ RoutingGroup.all, ∃ table, config.routingTable g = .ok table := by
      generalize RoutingGroup.all = groups at htables
      induction groups generalizing tables with
      | nil => simp
      | cons g rest ih =>
        rw [List.mapM_cons] at htables
        obtain ⟨table, hfirst, htables⟩ := bind_eq_ok_iff.1 htables
        obtain ⟨more, hrest, -⟩ := bind_eq_ok_iff.1 htables
        exact List.forall_mem_cons.2 ⟨⟨table, hfirst⟩, ih more hrest⟩
    obtain ⟨table, htable⟩ := hread group (by cases group <;> decide)
    rw [h] at htable
    cases htable

theorem Configuration.exists_tables_of_lookupMaps (h : config.lookupMaps = .ok maps) :
    ∃ tables : RoutingGroup → RoutingTable,
      (∀ group, config.routingTable group = .ok (tables group))
      ∧ maps = RoutingGroup.all.flatMap fun group => LookupMap.ofTable (tables group) := by
  have htables : ∀ group, ∃ table, config.routingTable group = .ok table := by
    intro group
    cases htable : config.routingTable group with
    | ok table => exact ⟨table, rfl⟩
    | error cause =>
      obtain ⟨first, hfirst⟩ := lookupMaps_of_error htable
      rw [h] at hfirst
      cases hfirst
  obtain ⟨tables, htables⟩ := Classical.skolem.1 htables
  exact ⟨tables, htables, Except.ok.inj (h.symm.trans (lookupMaps_eq htables))⟩

/-! ## Files of maps -/

/-- The file of an entry without slashes has a single name. -/
theorem LookupMap.isPlain_fileName {table : RoutingTable}
    (h : ∀ entry ∈ table.entries, '/' ∉ entry.1.toList) :
    ∀ map ∈ ofTable table, FilePath.IsPlain map.fileName := by
  intro map hmap part hpart
  obtain ⟨⟨entry, mapping⟩, hentry, rfl⟩ := List.mem_map.1 hmap
  have hgroup : '/' ∉ table.group.name.toList := by cases table.group <;> decide
  have hslash : '/' ∉ (table.mapName entry ++ ".txt").toList := by
    simp [RoutingTable.mapName, hgroup, h _ hentry]
  have hsign : '_' ∈ (table.mapName entry ++ ".txt").toList := by simp [RoutingTable.mapName]
  have hname : part = (table.mapName entry ++ ".txt").toList := by
    rwa [fileName, Text.split_of_not_mem hslash, List.mem_singleton] at hpart
  rw [← hname] at hsign
  refine ⟨?_, ?_, ?_⟩ <;> intro heq <;> rw [heq] at hsign <;> exact absurd hsign (by decide)

/-- A tree into which maps were written, and nothing else. -/
structure HoldsMaps (folder : String) (maps : List LookupMap) (written : List String)
    (before after : FileTree) : Prop where
  /-- The paths are those of the maps, in order. -/
  paths : written = maps.map (Project.mapPath folder)
  /-- Every map is read at its path. -/
  readable : ∀ map ∈ maps, after.readText (Project.mapPath folder map) = .ok map.content
  /-- Everything else is as it was, but for folders that are new. -/
  kept : ∀ place, (∀ path ∈ written, after.locate path ≠ .ok place) →
    after.at? place = before.at? place
      ∨ (after.at? place = some .folder ∧ before.at? place = none)

/-- If a routing table cannot be read, writing the maps fails and changes nothing. If it ends well,
the tree holds the maps of all tables, group by group, each at its own path, and is otherwise as it
was. No entry has a slash in its name. -/
theorem writeMaps_all_or_nothing {project : Project} {resolution : Resolution} {tree : FileTree}
    (hengine : resolution.engine = .httpd) (hunique : resolution.base.HasUniqueNames)
    (hslash : ∀ group table, resolution.base.routingTable group = .ok table →
      ∀ entry ∈ table.entries, '/' ∉ entry.1.toList) :
    (∀ group cause, resolution.base.routingTable group = .error cause →
        ∃ first, resolution.base.lookupMaps = .error first
          ∧ (project.writeMaps resolution).on tree = (.error (.configuration first), tree))
      ∧ ∀ paths after, (project.writeMaps resolution).on tree = (.ok paths, after) →
        ∃ tables : RoutingGroup → RoutingTable,
          (∀ group, resolution.base.routingTable group = .ok (tables group))
          ∧ resolution.base.lookupMaps
            = .ok (RoutingGroup.all.flatMap fun group => LookupMap.ofTable (tables group))
          ∧ HoldsMaps (project.path project.settings.maps)
            (RoutingGroup.all.flatMap fun group => LookupMap.ofTable (tables group)) paths
            tree after := by
  have huses : resolution.engine.usesMapFiles = true := by rw [hengine]; rfl
  constructor
  · intro group cause hcause
    obtain ⟨first, hfirst⟩ := Configuration.lookupMaps_of_error hcause
    refine ⟨first, hfirst, ?_⟩
    unfold Project.writeMaps
    simp only [huses, Build.on_bind, hfirst, Build.on_ofExcept, mapError_error, Bool.not_true,
      Bool.false_eq_true, if_false]
  · intro paths after hrun
    obtain ⟨maps, made, hmaps, hmade, hwrite⟩ := (Project.on_writeMaps_eq_ok_iff huses).1 hrun
    obtain ⟨tables, htables, rfl⟩ := Configuration.exists_tables_of_lookupMaps hmaps
    have hpaths := Project.paths_of_writeMapsInto hwrite
    have hplain : ∀ map ∈ RoutingGroup.all.flatMap fun group => LookupMap.ofTable (tables group),
        FilePath.IsPlain map.fileName := by
      intro map hmap
      obtain ⟨group, -, hmap⟩ := List.mem_flatMap.1 hmap
      exact LookupMap.isPlain_fileName (hslash group _ (htables group)) map hmap
    -- no two maps share a file, so none is written over
    have hapart := pairwise_apart (nodup_fileNames (nodup_names hunique htables)) hplain
      (project.path project.settings.maps) after
    rw [← hpaths] at hapart
    refine ⟨tables, htables, hmaps, hpaths, Project.readText_of_writeMapsInto hwrite hapart, ?_⟩
    intro place hother
    rcases (Project.changes_of_writeMaps hrun).touched place
      with hsame | ⟨path, hpath, hplace⟩ | hnew
    · exact .inl hsame
    · exact absurd hplace (hother path hpath)
    · exact .inr hnew

/-! ## A map of the hub -/

def mapsProject : Project := ⟨"", { maps := "maps" }, BuildInputs.none⟩

/-- Entries of the hub, resolved for httpd. -/
def hubResolution (entries : List (String × Json)) : Resolution :=
  ⟨"config.json", hubConfiguration entries, .httpd, none, .remove⟩

/-- A folder of maps with an old map and a file that is none. -/
def mapsTree : FileTree := ⟨[(["maps"], .folder),
  (["maps", "hub_branch.txt"], .file (.text "old")), (["maps", "note"], .file (.text "kept"))]⟩

theorem slash_notMem_of_all (config : Configuration)
    (h : ∀ group, (config.routingTable group).toOption.all (fun table =>
      table.entries.all fun entry => entry.1.toList.all (· != '/')) = true) :
    ∀ group table, config.routingTable group = .ok table →
      ∀ entry ∈ table.entries, '/' ∉ entry.1.toList := by
  intro group table htable entry hentry hmem
  have hall := h group
  rw [htable] at hall
  have hsign := List.all_eq_true.1 (List.all_eq_true.1 hall entry hentry) '/' hmem
  exact absurd hsign (by decide)

theorem writeMaps_all_or_nothing_branch :
    (∃ first, (mapsProject.writeMaps (hubResolution [("branch", hubEntry "$branch" "master"),
          ("organization", .bool true)])).on mapsTree = (.error (.configuration first), mapsTree))
      ∧ ∃ after,
          (mapsProject.writeMaps (hubResolution [("branch", hubEntry "$branch" "master")])).on
            mapsTree = (.ok ["maps/hub_branch.txt"], after)
          ∧ after.readText "maps/hub_branch.txt" = .ok "key master"
          ∧ after.at? ["maps", "note"] = some (.file (.text "kept")) := by
  constructor
  · have hunique : (hubConfiguration [("branch", hubEntry "$branch" "master"),
        ("organization", .bool true)]).HasUniqueNames :=
      hubConfiguration_hasUniqueNames (by decide) (List.forall_mem_cons.2
        ⟨hubEntry_hasUniqueNames _ _, List.forall_mem_singleton.2 (.bool true)⟩)
    have hslash := slash_notMem_of_all (hubConfiguration
      [("branch", hubEntry "$branch" "master"), ("organization", .bool true)])
      (by intro group; cases group <;> decide +kernel)
    obtain ⟨first, -, hrun⟩ := (@writeMaps_all_or_nothing mapsProject (hubResolution _) mapsTree rfl
      hunique hslash).1 .hub _ rfl
    exact ⟨first, hrun⟩
  · have hunique : (hubConfiguration [("branch", hubEntry "$branch" "master")]).HasUniqueNames :=
      hubConfiguration_hasUniqueNames (by decide)
        (List.forall_mem_singleton.2 (hubEntry_hasUniqueNames _ _))
    have hslash := slash_notMem_of_all (hubConfiguration [("branch", hubEntry "$branch" "master")])
      (by intro group; cases group <;> decide +kernel)
    have hruns : (mapsProject.writeMaps (hubResolution
        [("branch", hubEntry "$branch" "master")])).endsWith mapsTree (fun paths after =>
          ∀ path ∈ paths, (after.locate path).toOption ≠ some ["maps", "note"]) = true := by
      decide +kernel
    obtain ⟨paths, after, hrun, hother⟩ := Build.exists_of_endsWith hruns
    obtain ⟨tables, -, hmaps, hholds⟩ := (@writeMaps_all_or_nothing mapsProject (hubResolution _)
      mapsTree rfl hunique hslash).2 paths after hrun
    have hcollected : (hubConfiguration [("branch", hubEntry "$branch" "master")]).lookupMaps
        = .ok [⟨"hub_branch", "key master"⟩] := eq_ok_of_toOption (by decide +kernel)
    obtain ⟨rfl, hreadable, hkept⟩ := Except.ok.inj (hmaps.symm.trans hcollected) ▸ hholds
    refine ⟨after, hrun, hreadable _ (List.mem_singleton_self _), ?_⟩
    rcases hkept ["maps", "note"] fun path hpath hplace => hother path hpath (by rw [hplace]; rfl)
      with hsame | ⟨-, hnew⟩
    · exact hsame
    · exact absurd hnew (by decide)

end HubRules
