import HubRules.Proofs.FileTree.Below
import HubRules.Proofs.Project.Replay

/-!
# Building twice

A build that is taken again on the tree that it left gives the same report and changes nothing
(`build_twice`), if it touches no stop of a path that it reads or looks for. A stop is a place
where the path ends or goes up again: a folder that the build makes can open a way that was closed
before, so that a file below it is found the second time only (`build_twice_differs`).
-/

namespace HubRules

namespace Project

open Outcome Build FileTree

variable {project : Project} {before after : FileTree} {report : BuildReport}

/-- The paths that a build reads or looks for, apart from the files of examples. -/
def inputPaths (project : Project) (report : BuildReport) : List String :=
  [FilePath.join project.root Settings.fileName, project.path project.primaryConfiguration,
    project.path project.settings.fallbackConfiguration, project.path project.settings.locales,
    project.path project.settings.catalog]
  ++ (report.artifacts ++ report.api.toList).map templateSource

/-- A build that keeps off its inputs: it touches no stop of a path that it reads or looks for. The
files of examples are those of some names from which the document can be rendered. -/
structure KeepsOffInputs (project : Project) (before after : FileTree) (report : BuildReport) :
    Prop where
  paths : ∀ path ∈ project.inputPaths report, ∀ stop ∈ stops path,
    ¬Touched report.paths before after stop
  examples : project.settings.rendersApi = true → ∀ resolution,
    project.resolve.on before = (.ok resolution, before) →
    ∃ names text, project.apiRendering resolution
        (Api.helpersAmong names before project.root) before = .ok text
      ∧ ∀ name ∈ names, ∀ stop ∈ stops (project.path name),
        ¬Touched report.paths before after stop

theorem path_templateSource (project : Project) (artifact : String) :
    project.path (templateSource artifact) = templateSource (project.path artifact) :=
  FilePath.join_append project.root artifact (by decide)

theorem open_of_shown? {root : String} {inputs : BuildInputs}
    (h : after.shown? (FilePath.join root Settings.fileName)
      = before.shown? (FilePath.join root Settings.fileName))
    (hopen : open_ before root inputs = .ok project) : open_ after root inputs = .ok project := by
  have hload : Refines (Settings.load before root) (Settings.load after root) := by
    unfold Settings.load
    dsimp only
    rw [exists?_of_shown? h]
    exact .ite (.refl _) (.bind (.mapError (readText_refines h)) fun _ => .refl _)
  exact (Refines.bind hload fun _ => .refl _) project hopen

/-- The document is rendered to the same text at every stage of both runs. -/
theorem replay_writeOptionalApi {resolution : Resolution} {tree second last : FileTree}
    {paths : List String} {written : Option String} (h : Follows last tree second)
    (hrooted : before.IsRooted) (hstage : Stage paths before last tree)
    (hlast : Stage paths before last last)
    (hsource : ∀ path ∈ written, ∀ stop ∈ stops (templateSource path),
      ¬Touched paths before last stop)
    (hexamples : project.settings.rendersApi = true → ∃ names text, project.apiRendering resolution
        (Api.helpersAmong names before project.root) before = .ok text
      ∧ ∀ name ∈ names, ∀ stop ∈ stops (project.path name), ¬Touched paths before last stop)
    (hrun : (project.writeOptionalApi resolution).on tree = (.ok written, last)) :
    ∃ done, (project.writeOptionalApi resolution).on second = (.ok written, done)
      ∧ Follows last last done := by
  rw [on_writeOptionalApi_eq_ok_iff] at hrun
  cases hrenders : project.settings.rendersApi with
  | false =>
    rw [hrenders] at hrun
    obtain ⟨rfl, rfl⟩ : written = none ∧ last = tree := hrun
    exact ⟨second, on_writeOptionalApi_eq_ok_iff.2 (by rw [hrenders]; exact ⟨rfl, rfl⟩), h⟩
  | true =>
    rw [hrenders] at hrun
    obtain ⟨path, rfl, hapi⟩ : ∃ path, written = some path
      ∧ (project.writeApi resolution).on tree = (.ok path, last) := hrun
    obtain ⟨rfl, rendered, hrendered, hwrite⟩ := on_writeApi_eq_ok_iff.1 hapi
    obtain ⟨names, text, htext, hnames⟩ := hexamples hrenders
    have hsource := hsource _ rfl
    rw [← path_templateSource] at hsource
    -- both runs render the document from what the first tree shows
    obtain rfl : text = rendered := by
      have := apiRendering_refines (hstage.shown? hrooted hsource)
        (fun name hname => hstage.shown? hrooted (hnames name hname)) text htext
      exact Except.ok.inj (this.symm.trans hrendered)
    have hagain := apiRendering_refines (h.shown? hrooted hstage hlast hsource)
      (fun name hname => h.shown? hrooted hstage hlast (hnames name hname)) text htext
    obtain ⟨done, hdone, hfollows⟩ := h.write (.refl last) hstage.rooted (.refl last) hwrite
    refine ⟨done, on_writeOptionalApi_eq_ok_iff.2 ?_, hfollows⟩
    rw [hrenders]
    exact ⟨_, rfl, on_writeApi_eq_ok_iff.2 ⟨rfl, text, hagain, hdone⟩⟩

/-- A build that keeps off its inputs can be taken again: the project opens as before, and building
it gives the same report and leaves everything as it is. -/
theorem build_twice {root : String} {inputs : BuildInputs} (hrooted : before.IsRooted)
    (hopen : open_ before root inputs = .ok project)
    (hbuild : project.build.on before = (.ok report, after))
    (hinputs : project.KeepsOffInputs before after report) :
    open_ after root inputs = .ok project
      ∧ ∃ final, project.build.on after = (.ok report, final)
        ∧ ∀ place, final.at? place = after.at? place := by
  obtain ⟨resolution, catalog, context, named, mapped, compiled, indexed, h⟩ :=
    on_build_eq_ok_iff.1 hbuild
  obtain ⟨hindexed, hcompiled, hmapped, hnamed, hbefore⟩ := h.rest
  obtain ⟨hstage₁, hstage₂, hstage₃, hstage₄, hlast⟩ := h.stage hrooted
  have hadmits := Admits.refl after
  have hshown : ∀ path ∈ project.inputPaths report, after.shown? path = before.shown? path :=
    fun path hpath => hlast.shown? hrooted (hinputs.paths path hpath)
  have hroot : project.root = root := by
    obtain ⟨settings, -, hproject⟩ := bind_eq_ok_iff.1 hopen
    rw [← Except.ok.inj hproject]
  refine ⟨open_of_shown? (hroot ▸ hshown _ (by simp [inputPaths])) hopen, ?_⟩
  have hresolve := (resolve_alike (hshown _ (by simp [inputPaths]))
    (hshown _ (by simp [inputPaths])) _ _ h.resolve).2
  have hview := (catalog_alike resolution (hshown _ (by simp [inputPaths]))
    (hshown _ (by simp [inputPaths])) _ _ h.view).2
  -- from here on the second run keeps step with the first one, stage by stage
  have hstart : Follows after before after :=
    ⟨hlast.rooted, hbefore.grows.folder, fun _ => .inr rfl⟩
  obtain ⟨named', hnames, hfollows₁⟩ :=
    replay_writeNames hstart hadmits hrooted hnamed.grows h.names
  obtain ⟨mapped', hmaps, hfollows₂⟩ :=
    replay_writeMaps hfollows₁ hadmits hstage₁.rooted hmapped.grows h.maps
  have hsources : ∀ path ∈ report.artifacts ++ report.api.toList,
      ∀ stop ∈ stops (templateSource path), ¬Touched report.paths before after stop := by
    intro path hpath
    exact hinputs.paths _ (List.mem_append_right _ (List.mem_map.2 ⟨path, hpath, rfl⟩))
  have htemplates : ∀ artifact ∈ project.templates resolution,
      ∀ stop ∈ stops (project.path (templateSource artifact)),
        ¬Touched report.paths before after stop := by
    intro artifact hartifact
    rw [path_templateSource]
    refine hsources _ (List.mem_append_left _ ?_)
    rw [paths_of_compileAll h.artifacts]
    exact List.mem_map.2 ⟨artifact, hartifact, rfl⟩
  obtain ⟨compiled', hartifacts, hfollows₃⟩ := replay_compileAll hfollows₂ hadmits hrooted hstage₂
    hlast hcompiled.grows htemplates (by simp +contextual [BuildReport.paths]) h.artifacts
  obtain ⟨indexed', hsnapshot, hfollows₄⟩ :=
    replay_writeSnapshot hfollows₃ hadmits hstage₃.rooted hindexed.grows h.snapshot
  obtain ⟨final, hapi, hfollows₅⟩ := replay_writeOptionalApi hfollows₄ hrooted hstage₄ hlast
    (fun path hpath => hsources path (List.mem_append_right _ (by simpa using hpath)))
    (fun hrenders => hinputs.examples hrenders resolution h.resolve) h.api
  have hstages : project.Stages after final report resolution catalog context named' mapped'
      compiled' indexed' :=
    ⟨hresolve, hview, hnames, hmaps, (context_alike resolution catalog _ _ h.assemble).2,
      hartifacts, hsnapshot, hapi⟩
  refine ⟨final, on_build_eq_ok_iff.2 ⟨_, _, _, _, _, _, _, hstages⟩, fun place => ?_⟩
  rcases hfollows₅.same place with hsame | hsame <;> exact hsame

/-! ## Two small projects -/

/-- The text of a small configuration, with one entry for which httpd has a lookup map. -/
def smallConfiguration : String :=
  "\x7b\"control_host\":\"c\",\"visualization_server\":\"v\",\"jenkins_host\":\"j\",\"hub_regex\":\"\","
    ++ "\"hub_redirect\":\"\",\"hub_mapping\":\x7b\"hub\":\x7b\"b\":\x7b\"input\":\"\"\x7d\x7d\x7d\x7d"

/-- The files of a small project: settings and a configuration, a catalog without units, a template
that tells which configuration was taken, and an example for the document of the interface. -/
def smallTree (settings : String) (configuration : List String) : FileTree := ⟨[
  (["vizhub.toml"], .file (.text settings)),
  (configuration, .file (.text smallConfiguration)),
  (["lib"], .folder),
  (["lib", "config.json"], .file (.text smallConfiguration)),
  (["visualizations.json"], .file (.text "\x7b\x7d")),
  (["a.mustache"], .file (.text "\x7b\x7bconfig_file\x7d\x7d")),
  (["openapi.json.mustache"], .file (.text
    "\x7b\x7b#example_file\x7d\x7dx: \x7b\"externalValue\":\"x.txt\"\x7d\x7b\x7b/example_file\x7d\x7d")),
  (["x.txt"], .file (.text "ex"))]⟩

def smallInputs : BuildInputs := { BuildInputs.none with userId := some 1, groupId := some 1 }

def plainSettings : String := "[render]\ntemplates = [\"a\"]\n"

def plainProject : Project := ⟨".", { templates := ["a"] }, smallInputs⟩

theorem open_eq_ok {tree : FileTree} (h : (Settings.load tree project.root).toOption
    = some project.settings) : open_ tree project.root project.inputs = .ok project := by
  unfold open_
  rw [eq_ok_of_toOption h]
  rfl

def plainTree : FileTree := smallTree plainSettings ["config.json"]

theorem build_twice_plain :
    plainTree.IsRooted ∧ open_ plainTree "." smallInputs = .ok plainProject
      ∧ ∃ report after, plainProject.build.on plainTree = (.ok report, after)
        ∧ plainProject.KeepsOffInputs plainTree after report
        ∧ open_ after "." smallInputs = .ok plainProject
        ∧ ∃ final, plainProject.build.on after = (.ok report, final)
          ∧ ∀ place, final.at? place = after.at? place := by
  have hrooted : plainTree.IsRooted := IsRooted.of_entries (by decide)
  have hopen : open_ plainTree "." smallInputs = .ok plainProject :=
    @open_eq_ok plainProject plainTree (by decide +kernel)
  refine ⟨hrooted, hopen, ?_⟩
  have hkeeps : plainProject.build.endsWith plainTree (fun report after =>
      ∀ path ∈ plainProject.inputPaths report ++ ["./x.txt"], ∀ stop ∈ stops path,
        ¬Touched report.paths plainTree after stop) = true := by decide +kernel
  have hrenders : plainProject.resolve.endsWith plainTree (fun resolution _ =>
      (plainProject.apiRendering resolution (Api.helpersAmong ["x.txt"] plainTree ".")
        plainTree).isOk = true) = true := by decide +kernel
  obtain ⟨report, after, hbuild, hstops⟩ := exists_of_endsWith hkeeps
  obtain ⟨resolution, _, hresolve, hok⟩ := exists_of_endsWith hrenders
  obtain ⟨text, htext⟩ := exists_eq_ok hok
  have hinputs : plainProject.KeepsOffInputs plainTree after report := by
    refine ⟨fun path hpath => hstops path (List.mem_append_left _ hpath),
      fun _ other hother => ?_⟩
    obtain rfl : resolution = other :=
      Except.ok.inj (congrArg Prod.fst (hresolve.symm.trans hother))
    refine ⟨["x.txt"], text, htext, List.forall_mem_singleton.2 ?_⟩
    exact hstops _ (List.mem_append_right _ (List.mem_singleton.2 (by decide)))
  exact ⟨report, after, hbuild, hinputs, build_twice hrooted hopen hbuild hinputs⟩

/-- The settings of a project whose configuration is looked for through a folder that the build
makes. -/
def climbingSettings : String :=
  "[paths]\nconfiguration = \"httpd/../config.json\"\n[render]\ntemplates = [\"a\"]\nopenapi = false\n"

def climbingProject : Project :=
  ⟨".", { configuration := "httpd/../config.json", templates := ["a"], rendersApi := false },
    smallInputs⟩

def climbingTree : FileTree := smallTree climbingSettings ["config.json"]

/-- A build that writes none of the paths that it reads or looks for, and that writes something
else when it is taken again. -/
theorem build_twice_differs :
    open_ climbingTree "." smallInputs = .ok climbingProject
      ∧ ∃ report after again final, climbingProject.build.on climbingTree = (.ok report, after)
        ∧ (∀ path ∈ report.paths, path ∉ climbingProject.inputPaths report)
        ∧ open_ after "." smallInputs = .ok climbingProject
        ∧ climbingProject.build.on after = (.ok again, final)
        ∧ final.readText "./a" ≠ after.readText "./a" := by
  refine ⟨@open_eq_ok climbingProject climbingTree (by decide +kernel), ?_⟩
  have hruns : climbingProject.build.endsWith climbingTree (fun report after =>
      (∀ path ∈ report.paths, path ∉ climbingProject.inputPaths report)
        ∧ (Settings.load after ".").toOption = some climbingProject.settings
        ∧ climbingProject.build.endsWith after (fun _ final =>
          (final.readText "./a").toOption ≠ (after.readText "./a").toOption) = true) = true := by
    decide +kernel
  obtain ⟨report, after, hbuild, hpaths, hopen, hagain⟩ := exists_of_endsWith hruns
  obtain ⟨again, final, hagain, hdiffers⟩ := exists_of_endsWith hagain
  exact ⟨report, after, again, final, hbuild, hpaths, @open_eq_ok climbingProject after hopen,
    hagain, fun heq => hdiffers (congrArg Except.toOption heq)⟩

end Project

end HubRules
