import HubRules.Proofs.FileTree.Replay
import HubRules.Proofs.Project.Compilation
import HubRules.Proofs.Project.Maps

/-!
# Stages of a build

What every stage of a build reads and writes. The stages that only read depend on what a few paths
show (`resolve_alike`, `catalog_alike`, `rendering_refines`). A build ends well exactly if its
stages do, one after the other (`on_build_eq_ok_iff`).
-/

namespace HubRules

def BuildReport.paths (report : BuildReport) : List String :=
  [report.names] ++ (report.maps ++ (report.artifacts ++ ([report.snapshot] ++ report.api.toList)))

namespace Project

open Outcome Build

variable {project : Project} {resolution : Resolution} {catalog : CatalogView}
  {context : RenderContext} {tree other after : FileTree} {path : String}

/-! ## Reading -/

def primaryConfiguration (project : Project) : String :=
  project.inputs.configurationFile.getD project.settings.configuration

theorem configurationFile_eq (project : Project) (tree : FileTree) :
    project.configurationFile tree =
      if tree.exists? (project.path project.primaryConfiguration) then
        project.primaryConfiguration
      else project.settings.fallbackConfiguration := rfl

theorem readText_refines (h : other.shown? path = tree.shown? path) :
    Refines (tree.readText path) (other.readText path) :=
  fun _ hread => FileTree.readText_of_shown? h hread

theorem resolve_alike
    (hprimary : other.shown? (project.path project.primaryConfiguration)
      = tree.shown? (project.path project.primaryConfiguration))
    (hfallback : other.shown? (project.path project.settings.fallbackConfiguration)
      = tree.shown? (project.path project.settings.fallbackConfiguration)) :
    Alike tree other project.resolve project.resolve := by
  have hfile : project.configurationFile other = project.configurationFile tree := by
    rw [configurationFile_eq, configurationFile_eq, FileTree.exists?_of_shown? hprimary]
  have hread : other.shown? (project.path (project.configurationFile tree))
      = tree.shown? (project.path (project.configurationFile tree)) := by
    rw [configurationFile_eq]
    split
    · exact hprimary
    · exact hfallback
  refine .get_bind ?_
  rw [hfile]
  exact .bind (.reading _ _ (readText_refines hread)) fun text =>
    .bind (.ofExcept _ _) fun config => .ofExcept _ _

theorem catalog_alike (resolution : Resolution)
    (hlocales : other.shown? (project.path project.settings.locales)
      = tree.shown? (project.path project.settings.locales))
    (hcatalog : other.shown? (project.path project.settings.catalog)
      = tree.shown? (project.path project.settings.catalog)) :
    Alike tree other (project.catalog resolution) (project.catalog resolution) := by
  have hmessages : Alike tree other project.messages project.messages := by
    refine .get_bind ?_
    rw [FileTree.exists?_of_shown? hlocales]
    split
    · exact .pure _
    · exact .bind (.reading _ _ (readText_refines hlocales)) fun text => .ofExcept _ _
  exact .bind hmessages fun messages => .bind (.reading _ _ (readText_refines hcatalog)) fun text =>
    .bind (.ofExcept _ _) fun catalog => .ofExcept _ _

theorem context_alike (resolution : Resolution) (catalog : CatalogView) :
    Alike tree other (project.context resolution catalog) (project.context resolution catalog) :=
  .ofExcept _ _

theorem readSource_refines (h : other.shown? path = tree.shown? path) :
    Refines (readSource path tree) (readSource path other) := by
  intro text hread
  unfold readSource at hread ⊢
  cases hfile : tree.readText path with
  | error cause =>
    rw [hfile] at hread
    cases hread
  | ok found =>
    rw [hfile] at hread
    rw [FileTree.readText_of_shown? h hfile]
    exact hread

/-- What an artifact is rendered to depends on what the path of its template shows. -/
theorem rendering_refines {artifact : String}
    (h : other.shown? (project.path (templateSource artifact))
      = tree.shown? (project.path (templateSource artifact))) :
    Refines (project.rendering context artifact tree)
      (project.rendering context artifact other) :=
  .bind (readSource_refines h) fun _ => .refl _

/-! ## Writing -/

theorem on_writeNames_eq_ok_iff :
    (project.writeNames catalog).on tree = (.ok path, after) ↔
      path = project.path project.settings.names
        ∧ tree.write (project.path project.settings.names) (.text (" ".intercalate catalog.names))
          = .ok after := by
  unfold writeNames
  simp only [on_bind_eq_ok_iff, on_write_eq_ok_iff, on_pure, Prod.mk.injEq, Except.ok.injEq]
  constructor
  · rintro ⟨_, _, hwrite, rfl, rfl⟩
    exact ⟨rfl, hwrite⟩
  · rintro ⟨rfl, hwrite⟩
    exact ⟨(), after, hwrite, rfl, rfl⟩

theorem on_writeSnapshot_eq_ok_iff :
    (project.writeSnapshot resolution).on tree = (.ok path, after) ↔
      path = project.path project.settings.snapshot ∧ ∃ snapshot,
        Snapshot.ofConfiguration resolution.base project.inputs.organization = .ok snapshot
          ∧ tree.write (project.path project.settings.snapshot) (.text snapshot.toString)
            = .ok after := by
  unfold writeSnapshot
  simp only [on_bind_eq_ok_iff, on_ofExcept, on_write_eq_ok_iff, on_pure, Prod.mk.injEq,
    Except.ok.injEq, mapError_eq_ok_iff]
  constructor
  · rintro ⟨snapshot, _, ⟨hsnapshot, rfl⟩, _, _, hwrite, rfl, rfl⟩
    exact ⟨rfl, snapshot, hsnapshot, hwrite⟩
  · rintro ⟨rfl, snapshot, hsnapshot, hwrite⟩
    exact ⟨snapshot, tree, ⟨hsnapshot, rfl⟩, (), after, hwrite, rfl, rfl⟩

/-- The text of the document of the interface, rendered with helpers from the template that a
tree holds. -/
def apiRendering (project : Project) (resolution : Resolution) (helpers : Helpers)
    (tree : FileTree) : Except BuildError Text := do
  let text ← readSource (project.path (templateSource project.settings.api)) tree
  let values ← (Api.values resolution).mapError .configuration
  (Template.renderText text values helpers project.settings.strict).mapError .template

theorem on_writeApi_eq_ok_iff :
    (project.writeApi resolution).on tree = (.ok path, after) ↔
      path = project.path project.settings.api ∧ ∃ rendered,
        project.apiRendering resolution (Api.helpers tree project.root) tree = .ok rendered
          ∧ tree.write (project.path project.settings.api) (.text (String.ofList rendered))
            = .ok after := by
  unfold writeApi
  simp only [on_bind_eq_ok_iff, on_reading, on_write_eq_ok_iff, on_pure, Prod.mk.injEq,
    Except.ok.injEq, Activity.run, mapError_eq_ok_iff]
  constructor
  · rintro ⟨rendered, _, ⟨hrendered, rfl⟩, _, _, hwrite, rfl, rfl⟩
    exact ⟨rfl, rendered, hrendered, hwrite⟩
  · rintro ⟨rfl, rendered, hrendered, hwrite⟩
    exact ⟨rendered, tree, ⟨hrendered, rfl⟩, (), after, hwrite, rfl, rfl⟩

/-- The last stage of a build: the document of the interface, if it is rendered. -/
def writeOptionalApi (project : Project) (resolution : Resolution) : Build (Option String) :=
  if project.settings.rendersApi then some <$> project.writeApi resolution else pure none

theorem changes_of_compile {artifact : String}
    (h : (project.compile context artifact).on tree = (.ok path, after)) :
    FileTree.Changes [path] tree after := by
  obtain ⟨rfl, rendered, made, -, hmade, hwrite⟩ := on_compile_eq_ok_iff.1 h
  have hfolder : FileTree.Changes [] tree made := by
    unfold FileTree.makeParent at hmade
    split at hmade
    · exact .makeFolders hmade
    · obtain rfl : tree = made := Except.ok.inj hmade
      exact .refl tree
  exact hfolder.trans (.write hwrite)

theorem changes_of_compileAll {artifacts paths : List String}
    (h : (project.compileAll context artifacts).on tree = (.ok paths, after)) :
    FileTree.Changes paths tree after := by
  induction artifacts generalizing tree paths with
  | nil =>
    rw [on_compileAll_nil, Prod.mk.injEq, Except.ok.injEq] at h
    obtain ⟨rfl, rfl⟩ := h
    exact .refl tree
  | cons artifact rest ih =>
    obtain ⟨between, more, hfirst, hrest, rfl⟩ := on_compileAll_cons_eq_ok_iff.1 h
    exact (changes_of_compile hfirst).trans (ih hrest)

theorem on_writeOptionalApi_eq_ok_iff {written : Option String} :
    (project.writeOptionalApi resolution).on tree = (.ok written, after) ↔
      if project.settings.rendersApi then
        ∃ path, written = some path ∧ (project.writeApi resolution).on tree = (.ok path, after)
      else written = none ∧ after = tree := by
  unfold writeOptionalApi
  split
  · rw [on_map_eq_ok_iff]
    simp only [eq_comm, and_comm]
  · simp [eq_comm]

theorem changes_of_writeOptionalApi {written : Option String}
    (h : (project.writeOptionalApi resolution).on tree = (.ok written, after)) :
    FileTree.Changes written.toList tree after := by
  rw [on_writeOptionalApi_eq_ok_iff] at h
  split at h
  · obtain ⟨path, rfl, h⟩ := h
    obtain ⟨rfl, rendered, -, hwrite⟩ := on_writeApi_eq_ok_iff.1 h
    exact .write hwrite
  · obtain ⟨rfl, rfl⟩ := h
    exact .refl _

/-! ## The whole build -/

/-- What the stages of a build give, with the trees that they leave. -/
structure Stages (project : Project) (before after : FileTree) (report : BuildReport)
    (resolution : Resolution) (catalog : CatalogView) (context : RenderContext)
    (named mapped compiled indexed : FileTree) : Prop where
  resolve : project.resolve.on before = (.ok resolution, before)
  view : (project.catalog resolution).on before = (.ok catalog, before)
  names : (project.writeNames catalog).on before = (.ok report.names, named)
  maps : (project.writeMaps resolution).on named = (.ok report.maps, mapped)
  assemble : (project.context resolution catalog).on mapped = (.ok context, mapped)
  artifacts : (project.compileAll context (project.templates resolution)).on mapped
    = (.ok report.artifacts, compiled)
  snapshot : (project.writeSnapshot resolution).on compiled = (.ok report.snapshot, indexed)
  api : (project.writeOptionalApi resolution).on indexed = (.ok report.api, after)

theorem build_eq (project : Project) : project.build = (do
    let resolution ← project.resolve
    let catalog ← project.catalog resolution
    let names ← project.writeNames catalog
    let maps ← project.writeMaps resolution
    let context ← project.context resolution catalog
    let artifacts ← project.compileAll context (project.templates resolution)
    let snapshot ← project.writeSnapshot resolution
    let api ← project.writeOptionalApi resolution
    return ⟨names, maps, artifacts, snapshot, api⟩) := by
  unfold build writeOptionalApi
  cases project.settings.rendersApi <;> rfl

theorem on_build_eq_ok_iff {before : FileTree} {report : BuildReport} :
    project.build.on before = (.ok report, after) ↔
      ∃ resolution catalog context named mapped compiled indexed,
        project.Stages before after report resolution catalog context named mapped compiled
          indexed := by
  have hsame : ∀ {α : Type} {step : Build α} {tree after : FileTree} {a : α},
      Alike tree tree step step → step.on tree = (.ok a, after) → after = tree :=
    fun halike hrun => (halike _ _ hrun).1
  rw [build_eq]
  simp only [on_bind_eq_ok_iff, on_pure, Prod.mk.injEq, Except.ok.injEq]
  constructor
  · rintro ⟨resolution, _, hresolve, catalog, _, hview, names, named, hnames, maps, mapped,
      hmaps, context, _, hassemble, artifacts, compiled, hartifacts, snapshot, indexed, hsnapshot,
      api, _, hapi, rfl, rfl⟩
    obtain rfl := hsame (resolve_alike rfl rfl) hresolve
    obtain rfl := hsame (catalog_alike resolution rfl rfl) hview
    obtain rfl := hsame (context_alike resolution catalog) hassemble
    exact ⟨resolution, catalog, context, named, _, compiled, indexed, hresolve, hview, hnames,
      hmaps, hassemble, hartifacts, hsnapshot, hapi⟩
  · rintro ⟨resolution, catalog, context, named, mapped, compiled, indexed, h⟩
    exact ⟨resolution, before, h.resolve, catalog, before, h.view, report.names, named, h.names,
      report.maps, mapped, h.maps, context, mapped, h.assemble, report.artifacts, compiled,
      h.artifacts, report.snapshot, indexed, h.snapshot, report.api, after, h.api, rfl, rfl⟩

/-! ## Trees between the stages -/

section

variable {before named mapped compiled indexed : FileTree} {report : BuildReport}

theorem changes_of_writeNames (h : (project.writeNames catalog).on tree = (.ok path, after)) :
    FileTree.Changes [path] tree after := by
  obtain ⟨rfl, hwrite⟩ := on_writeNames_eq_ok_iff.1 h
  exact .write hwrite

theorem changes_of_writeSnapshot
    (h : (project.writeSnapshot resolution).on tree = (.ok path, after)) :
    FileTree.Changes [path] tree after := by
  obtain ⟨rfl, snapshot, -, hwrite⟩ := on_writeSnapshot_eq_ok_iff.1 h
  exact .write hwrite

theorem Stages.rest (h : project.Stages before after report resolution catalog context named mapped
      compiled indexed) :
    FileTree.Changes report.api.toList indexed after
      ∧ FileTree.Changes ([report.snapshot] ++ report.api.toList) compiled after
      ∧ FileTree.Changes (report.artifacts ++ ([report.snapshot] ++ report.api.toList)) mapped after
      ∧ FileTree.Changes
        (report.maps ++ (report.artifacts ++ ([report.snapshot] ++ report.api.toList))) named after
      ∧ FileTree.Changes report.paths before after := by
  have hindexed := changes_of_writeOptionalApi h.api
  have hcompiled := (changes_of_writeSnapshot h.snapshot).trans hindexed
  have hmapped := (changes_of_compileAll h.artifacts).trans hcompiled
  have hnamed := (changes_of_writeMaps h.maps).trans hmapped
  exact ⟨hindexed, hcompiled, hmapped, hnamed, (changes_of_writeNames h.names).trans hnamed⟩

/-- Every tree between the stages is a stage of the run. -/
theorem Stages.stage (h : project.Stages before after report resolution catalog context named mapped
      compiled indexed) (hrooted : before.IsRooted) :
    FileTree.Stage report.paths before after named
      ∧ FileTree.Stage report.paths before after mapped
      ∧ FileTree.Stage report.paths before after compiled
      ∧ FileTree.Stage report.paths before after indexed
      ∧ FileTree.Stage report.paths before after after := by
  obtain ⟨hindexed, hcompiled, hmapped, hnamed, hbefore⟩ := h.rest
  have hfirst := (FileTree.Stage.start hrooted hbefore).next (changes_of_writeNames h.names)
    hnamed.grows (by simp [BuildReport.paths])
  have hsecond := hfirst.next (changes_of_writeMaps h.maps) hmapped.grows
    (by simp +contextual [BuildReport.paths])
  have hthird := hsecond.next (changes_of_compileAll h.artifacts) hcompiled.grows
    (by simp +contextual [BuildReport.paths])
  have hfourth := hthird.next (changes_of_writeSnapshot h.snapshot) hindexed.grows
    (by simp [BuildReport.paths])
  exact ⟨hfirst, hsecond, hthird, hfourth, hfourth.next hindexed (.refl after)
    (by simp +contextual [BuildReport.paths])⟩

end

end Project

end HubRules
