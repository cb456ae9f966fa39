import HubRules.Proofs.Command.Steps
import HubRules.Proofs.Project.Repetition

/-!
# Commands for parts of a build

The commands that render one template, print names or write lookup maps only put together what
they need on their own, and on the tree as it is before a build. They agree with the build
(`parts_agree`), if the build writes every file once and touches no stop of a template's path.
-/

namespace HubRules

open Outcome

namespace Project

open Build FileTree

variable {project : Project} {resolution : Resolution} {context : RenderContext}
  {before last tree after : FileTree} {paths written : List String}

/-- Artifacts that are written once each hold what their templates are rendered to on the tree
before the build. -/
theorem texts_of_compileAll {artifacts : List String} (hrooted : before.IsRooted)
    (hstage : Stage paths before last tree) (hgrows : Grows after last)
    (hsources : ∀ artifact ∈ artifacts, ∀ stop ∈ stops (project.path (templateSource artifact)),
      ¬Touched paths before last stop)
    (hwritten : ∀ path ∈ written, path ∈ paths) (hplaces : written.Pairwise after.Apart)
    (hrun : (project.compileAll context artifacts).on tree = (.ok written, after)) :
    ∀ artifact ∈ artifacts, artifact ≠ "" ∧ ∃ text,
      project.rendering context artifact before = .ok text
        ∧ after.readText (project.path artifact) = .ok text := by
  -- a template is read at a stage of the run, where it is as it was before; what is written to
  -- the artifact stays, since everything behind it is written elsewhere
  induction artifacts generalizing tree written with
  | nil => simp
  | cons first rest ih =>
    obtain ⟨between, more, hfirst, hrest, rfl⟩ := on_compileAll_cons_eq_ok_iff.1 hrun
    obtain ⟨hpath, hmore⟩ := List.forall_mem_cons.1 hwritten
    obtain ⟨hsource, hsources⟩ := List.forall_mem_cons.1 hsources
    obtain ⟨hapart, hplaces⟩ := List.pairwise_cons.1 hplaces
    have hchanges := changes_of_compileAll hrest
    have hbetween := hchanges.grows.trans hgrows
    refine List.forall_mem_cons.2 ⟨?_, ih (hstage.next (changes_of_compile hfirst) hbetween
      (List.forall_mem_singleton.2 hpath)) hsources hmore hplaces hrest⟩
    obtain ⟨-, text, made, hrendered, -, hwrite⟩ := on_compile_eq_ok_iff.1 hfirst
    refine ⟨?_, text, rendering_refines (hstage.shown? hrooted hsource).symm text hrendered,
      hchanges.readText (readText_write hwrite) hapart⟩
    rintro rfl
    obtain ⟨_, -, -, hends, -⟩ := write_eq_ok hwrite
    rw [Project.path, FilePath.endsAsFolder_join] at hends
    cases hends

end Project

namespace Command

open Build FileTree

variable {options : ProjectOptions} {lookup : String → Option String} {project : Project}
  {before after : FileTree} {report : BuildReport}

/-- What the commands for parts of a build do on the tree before the build. -/
structure PartsAgree (options : ProjectOptions) (lookup : String → Option String)
    (project : Project) (before after : FileTree) (report : BuildReport) : Prop where
  /-- A template that is rendered on its own prints what the build writes to the artifact. -/
  render : ∃ resolution, project.resolve.on before = (.ok resolution, before)
    ∧ ∀ artifact ∈ project.templates resolution,
      ¬".mustache".toList.isSuffixOf artifact.toList = true →
      ∀ name, name = artifact ∨ name = templateSource artifact → ∃ text,
        on (run (.render name) options lookup) before = (.ok text, before)
          ∧ after.readText (project.path artifact) = .ok text
  /-- The names that are printed are those that the build writes, with the end of a line. -/
  names : ∃ content, on (run (.names false) options lookup) before = (.ok (content ++ "\n"), before)
    ∧ after.readText report.names = .ok content
  /-- The lookup maps that are written on their own are those that the build writes. -/
  maps : ∃ output written, on (run .maps options lookup) before = (.ok output, written)
    ∧ Changes report.maps before written
    ∧ ∀ path ∈ report.maps, ∃ content, written.readText path = .ok content
      ∧ after.readText path = .ok content

theorem readText_of_writeMaps {resolution : Resolution} {tree other mapped written : FileTree}
    {paths : List String} (h : (project.writeMaps resolution).on tree = (.ok paths, mapped))
    (h' : (project.writeMaps resolution).on other = (.ok paths, written))
    (hplaces : paths.Pairwise mapped.Apart) (hplaces' : paths.Pairwise written.Apart) :
    ∀ path ∈ paths, ∃ content, mapped.readText path = .ok content
      ∧ written.readText path = .ok content := by
  cases hengine : resolution.engine.usesMapFiles with
  | false =>
    rw [Project.on_writeMaps_of_not_usesMapFiles hengine, Prod.mk.injEq, Except.ok.injEq] at h
    obtain ⟨rfl, -⟩ := h
    simp
  | true =>
    obtain ⟨maps, made, hmaps, -, hwrite⟩ := (Project.on_writeMaps_eq_ok_iff hengine).1 h
    obtain ⟨maps', made', hmaps', -, hwrite'⟩ := (Project.on_writeMaps_eq_ok_iff hengine).1 h'
    obtain rfl : maps = maps' := Except.ok.inj (hmaps.symm.trans hmaps')
    have hread := Project.readText_of_writeMapsInto hwrite hplaces
    have hread' := Project.readText_of_writeMapsInto hwrite' hplaces'
    intro path hpath
    rw [Project.paths_of_writeMapsInto hwrite] at hpath
    obtain ⟨map, hmap, rfl⟩ := List.mem_map.1 hpath
    exact ⟨map.content, hread map hmap, hread' map hmap⟩

/-- Rendering one template takes the steps of a build that the template needs. -/
theorem on_run_render {name artifact text : String} {resolution : Resolution}
    {catalog : CatalogView} {context : RenderContext}
    (hopen : on (openProject options lookup) before = (.ok project, before))
    (hname : artifactName name = artifact) (hempty : artifact ≠ "")
    (hresolve : project.resolve.on before = (.ok resolution, before))
    (hview : (project.catalog resolution).on before = (.ok catalog, before))
    (hassemble : (project.context resolution catalog).on before = (.ok context, before))
    (hrendered : project.rendering context artifact before = .ok text) :
    on (run (.render name) options lookup) before = (.ok text, before) := by
  have hrender : (project.render context artifact).on before = (.ok text, before) := by
    rw [Project.on_render, hrendered]
    rfl
  unfold run
  dsimp only
  rw [hname, if_neg (by simpa using hempty), on_bind_eq_ok hopen]
  unfold render
  rw [on_bind_eq_ok (on_step_eq_ok hresolve), on_bind_eq_ok (on_step_eq_ok hview),
    on_bind_eq_ok (on_step_eq_ok hassemble)]
  exact on_step_eq_ok hrender

theorem on_run_names {resolution : Resolution} {catalog : CatalogView}
    (hopen : on (openProject options lookup) before = (.ok project, before))
    (hresolve : project.resolve.on before = (.ok resolution, before))
    (hview : (project.catalog resolution).on before = (.ok catalog, before)) :
    on (run (.names false) options lookup) before
      = (.ok (" ".intercalate catalog.names ++ "\n"), before) := by
  unfold run
  dsimp only
  rw [on_bind_eq_ok hopen]
  unfold names
  rw [on_bind_eq_ok (on_step_eq_ok hresolve), on_bind_eq_ok (on_step_eq_ok hview)]
  simp [unlines, String.join]

theorem on_run_maps {resolution : Resolution} {paths : List String}
    (hopen : on (openProject options lookup) before = (.ok project, before))
    (hresolve : project.resolve.on before = (.ok resolution, before))
    (hmaps : (project.writeMaps resolution).on before = (.ok paths, after)) :
    ∃ output, on (run .maps options lookup) before = (.ok output, after) := by
  unfold run
  dsimp only
  rw [on_bind_eq_ok hopen]
  unfold maps
  rw [on_bind_eq_ok (on_step_eq_ok hresolve), on_bind_eq_ok (on_step_eq_ok hmaps)]
  split
  · exact ⟨_, rfl⟩
  · exact ⟨_, rfl⟩

section

variable {resolution : Resolution} {catalog : CatalogView} {context : RenderContext}
  {named mapped compiled indexed : FileTree}

/-- Paths that are pairwise apart, stage by stage: those of a stage from each other, and from those
of the later stages. -/
theorem apart_by_stage (h : report.paths.Pairwise after.Apart) :
    (∀ path ∈ report.maps ++ (report.artifacts ++ ([report.snapshot] ++ report.api.toList)),
        after.Apart report.names path)
      ∧ report.maps.Pairwise after.Apart
      ∧ (∀ path ∈ report.maps,
        ∀ other ∈ report.artifacts ++ ([report.snapshot] ++ report.api.toList),
          after.Apart path other)
      ∧ report.artifacts.Pairwise after.Apart
      ∧ ∀ path ∈ report.artifacts, ∀ other ∈ [report.snapshot] ++ report.api.toList,
          after.Apart path other := by
  unfold BuildReport.paths at h
  obtain ⟨-, h, hnames⟩ := List.pairwise_append.1 h
  obtain ⟨hmaps, h, hlater⟩ := List.pairwise_append.1 h
  obtain ⟨hartifacts, -, hlast⟩ := List.pairwise_append.1 h
  exact ⟨hnames _ (List.mem_singleton_self _), hmaps, hlater, hartifacts, hlast⟩

variable (hopen : on (openProject options lookup) before = (.ok project, before))
  (h : project.Stages before after report resolution catalog context named mapped compiled
    indexed)
  (hplaces : report.paths.Pairwise after.Apart)

include hopen h hplaces

/-- The names that are printed are those that the build writes. -/
theorem names_agree :
    ∃ content, on (run (.names false) options lookup) before = (.ok (content ++ "\n"), before)
      ∧ after.readText report.names = .ok content := by
  obtain ⟨-, -, -, hnamed, -⟩ := h.rest
  obtain ⟨hpath, hwrite⟩ := Project.on_writeNames_eq_ok_iff.1 h.names
  refine ⟨_, on_run_names hopen h.resolve h.view, ?_⟩
  rw [← hpath] at hwrite
  exact hnamed.readText (readText_write hwrite) (apart_by_stage hplaces).1

theorem maps_agree (hrooted : before.IsRooted) :
    ∃ output written, on (run .maps options lookup) before = (.ok output, written)
      ∧ Changes report.maps before written
      ∧ ∀ path ∈ report.maps, ∃ content, written.readText path = .ok content
        ∧ after.readText path = .ok content := by
  obtain ⟨-, -, hmapped, hnamed, hbefore⟩ := h.rest
  obtain ⟨hstage, -, -, -, -⟩ := h.stage hrooted
  obtain ⟨-, hmaps, hlater, -, -⟩ := apart_by_stage hplaces
  obtain ⟨-, hwrite⟩ := Project.on_writeNames_eq_ok_iff.1 h.names
  -- the tree before the build keeps step with the one on which the build writes the maps
  have hfollows : Follows before named before :=
    ⟨hrooted, fun _ => folder_of_write hwrite, fun _ => .inr rfl⟩
  obtain ⟨written, hrun, hwritten⟩ :=
    Project.replay_writeMaps hfollows hbefore.grows.admits hstage.rooted hmapped.grows h.maps
  obtain ⟨output, houtput⟩ := on_run_maps hopen h.resolve hrun
  refine ⟨output, written, houtput, Project.changes_of_writeMaps hrun, fun path hpath => ?_⟩
  have hfolders : ∀ place, written.at? place = some .folder → after.at? place = some .folder := by
    intro place hplace
    rcases hwritten.same place with hsame | hsame
    · exact hmapped.grows.folder place (hsame.symm.trans hplace)
    · exact hbefore.grows.folder place (hsame.symm.trans hplace)
  obtain ⟨content, hread, hread'⟩ := readText_of_writeMaps h.maps hrun
    (hmaps.imp fun hapart => hapart.of_folders hmapped.grows.folder)
    (hmaps.imp fun hapart => hapart.of_folders hfolders) path hpath
  exact ⟨content, hread', hmapped.readText hread (hlater path hpath)⟩

/-- A template that is rendered on its own prints what the build writes. -/
theorem render_agrees (hrooted : before.IsRooted)
    (hsources : ∀ path ∈ report.artifacts, ∀ stop ∈ stops (templateSource path),
      ¬Touched report.paths before after stop) :
    ∀ artifact ∈ project.templates resolution,
      ¬".mustache".toList.isSuffixOf artifact.toList = true →
      ∀ name, name = artifact ∨ name = templateSource artifact → ∃ text,
        on (run (.render name) options lookup) before = (.ok text, before)
          ∧ after.readText (project.path artifact) = .ok text := by
  obtain ⟨-, hcompiled, -, -, -⟩ := h.rest
  obtain ⟨-, hstage, -, -, -⟩ := h.stage hrooted
  have hpaths := Project.paths_of_compileAll h.artifacts
  have hpath : ∀ artifact ∈ project.templates resolution,
      project.path artifact ∈ report.artifacts :=
    fun artifact hartifact => hpaths ▸ List.mem_map_of_mem hartifact
  obtain ⟨-, -, -, hartifacts, hlater⟩ := apart_by_stage hplaces
  have htexts := Project.texts_of_compileAll hrooted hstage hcompiled.grows
    (fun artifact hartifact => by
      rw [Project.path_templateSource]
      exact hsources _ (hpath artifact hartifact))
    (by simp +contextual [BuildReport.paths])
    (hartifacts.imp fun hapart => hapart.of_folders hcompiled.grows.folder) h.artifacts
  intro artifact hartifact hending name hname
  obtain ⟨hempty, text, hrendered, hread⟩ := htexts artifact hartifact
  have hnamed : artifactName name = artifact := by
    rcases hname with rfl | rfl
    · exact artifactName_artifact hending
    · exact artifactName_source hending
  exact ⟨text, on_run_render hopen hnamed hempty h.resolve h.view
      (Project.context_alike resolution catalog _ _ h.assemble).2 hrendered,
    hcompiled.readText hread (hlater _ (hpath artifact hartifact))⟩

end

/-- The commands for parts of a build agree with the build, if the build writes every file once
and touches no stop of the path of a template. -/
theorem parts_agree (hrooted : before.IsRooted)
    (hopen : on (openProject options lookup) before = (.ok project, before))
    (hbuild : project.build.on before = (.ok report, after))
    (hplaces : report.paths.Pairwise after.Apart)
    (hsources : ∀ path ∈ report.artifacts, ∀ stop ∈ stops (templateSource path),
      ¬Touched report.paths before after stop) :
    PartsAgree options lookup project before after report := by
  obtain ⟨resolution, catalog, context, named, mapped, compiled, indexed, h⟩ :=
    Project.on_build_eq_ok_iff.1 hbuild
  exact ⟨⟨resolution, h.resolve, render_agrees hopen h hplaces hrooted hsources⟩,
    names_agree hopen h hplaces, maps_agree hopen h hplaces hrooted⟩

/-- Options that leave everything to the settings and the environment. -/
def plainOptions : ProjectOptions := ⟨".", none, none, none, false, false⟩

def idsOnly (name : String) : Option String :=
  if name = "USER_ID" ∨ name = "GROUP_ID" then some "1" else none

theorem on_openProject_small {tree : FileTree} {settings : Settings}
    (hfolder : tree.isFolder "." = true)
    (hsettings : (Settings.load tree ".").toOption = some settings) :
    on (openProject plainOptions idsOnly) tree = (.ok ⟨".", settings, Project.smallInputs⟩, tree) :=
  on_openProject hfolder (eq_ok_of_toOption (by decide +kernel))
    (eq_ok_of_toOption hsettings)

theorem parts_agree_plain :
    Project.plainTree.IsRooted
      ∧ on (openProject plainOptions idsOnly) Project.plainTree
        = (.ok Project.plainProject, Project.plainTree)
      ∧ ∃ report after, Project.plainProject.build.on Project.plainTree = (.ok report, after)
        ∧ report.paths.Pairwise after.Apart
        ∧ (∀ path ∈ report.artifacts, ∀ stop ∈ stops (templateSource path),
          ¬Touched report.paths Project.plainTree after stop)
        ∧ PartsAgree plainOptions idsOnly Project.plainProject Project.plainTree after report := by
  have hrooted : Project.plainTree.IsRooted := IsRooted.of_entries (by decide)
  have hopen : on (openProject plainOptions idsOnly) Project.plainTree
      = (.ok Project.plainProject, Project.plainTree) :=
    on_openProject_small (by decide +kernel) (by decide +kernel)
  refine ⟨hrooted, hopen, ?_⟩
  have hkeeps : Project.plainProject.build.endsWith Project.plainTree (fun report after =>
      report.paths.Pairwise after.Apart
        ∧ ∀ path ∈ report.artifacts, ∀ stop ∈ stops (templateSource path),
          ¬Touched report.paths Project.plainTree after stop) = true := by decide +kernel
  obtain ⟨report, after, hbuild, hplaces, hsources⟩ := exists_of_endsWith hkeeps
  exact ⟨report, after, hbuild, hplaces, hsources,
    parts_agree hrooted hopen hbuild hplaces hsources⟩

/-- The settings of a project with two names for one file that is written, and with a template
that is found through a folder that the build makes. -/
def crossingSettings : String :=
  "[paths]\nnames_file = \"./s\"\nsnapshot = \"s\"\n"
    ++ "[render]\ntemplates = [\"httpd/../a\"]\nopenapi = false\n"

def crossingTree : FileTree := Project.smallTree crossingSettings ["config.json"]

def crossingProject : Project :=
  ⟨".", { names := "./s", snapshot := "s", templates := ["httpd/../a"], rendersApi := false },
    Project.smallInputs⟩

/-- A build that writes different paths and none of those that it reads or looks for, while its
template is not found before the build, and what is printed for the names is not in their file. -/
theorem parts_disagree :
    on (openProject plainOptions idsOnly) crossingTree = (.ok crossingProject, crossingTree)
      ∧ ∃ report after, crossingProject.build.on crossingTree = (.ok report, after)
        ∧ report.paths.Nodup ∧ (∀ path ∈ report.paths, path ∉ crossingProject.inputPaths report)
        ∧ crossingProject.path "httpd/../a" ∈ report.artifacts
        ∧ after.readText (crossingProject.path "httpd/../a") = .ok "config.json"
        ∧ (on (run (.render "httpd/../a") plainOptions idsOnly) crossingTree).1.isOk = false
        ∧ (on (run (.names false) plainOptions idsOnly) crossingTree).1 = .ok "\n"
        ∧ after.readText report.names ≠ .ok "" := by
  refine ⟨on_openProject_small (by decide +kernel) (by decide +kernel), ?_⟩
  have hrender : (on (run (.render "httpd/../a") plainOptions idsOnly) crossingTree).1.isOk
      = false := by decide +kernel
  have hnames : (on (run (.names false) plainOptions idsOnly) crossingTree).1 = .ok "\n" :=
    eq_ok_of_toOption (by decide +kernel)
  have hruns : crossingProject.build.endsWith crossingTree (fun report after =>
      report.paths.Nodup ∧ (∀ path ∈ report.paths, path ∉ crossingProject.inputPaths report)
        ∧ crossingProject.path "httpd/../a" ∈ report.artifacts
        ∧ (after.readText (crossingProject.path "httpd/../a")).toOption = some "config.json"
        ∧ (after.readText report.names).toOption ≠ some "") = true := by decide +kernel
  obtain ⟨report, after, hbuild, hdistinct, hinputs, hartifact, htext, hdiffers⟩ :=
    exists_of_endsWith hruns
  exact ⟨report, after, hbuild, hdistinct, hinputs, hartifact, eq_ok_of_toOption htext, hrender,
    hnames, fun hread => hdiffers (congrArg Except.toOption hread)⟩

end Command

end HubRules
