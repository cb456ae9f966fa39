import HubRules.Proofs.Api.Examples
import HubRules.Proofs.Project.Stages

/-!
# Replaying the stages of a build

Each stage of a build that writes does the same when it is taken again on a tree that keeps step
with the one on which it was taken first, as long as what it reads is the same.
-/

namespace HubRules.Project

open Outcome Build FileTree

variable {project : Project} {resolution : Resolution} {catalog : CatalogView}
  {context : RenderContext} {origin last before tree second after : FileTree} {path : String}
  {paths written : List String}

theorem replay_writeNames (h : Follows origin tree second) (hadmits : Admits origin last)
    (hrooted : tree.IsRooted) (hgrows : Grows after last)
    (hrun : (project.writeNames catalog).on tree = (.ok path, after)) :
    ∃ done, (project.writeNames catalog).on second = (.ok path, done)
      ∧ Follows origin after done := by
  obtain ⟨rfl, hwrite⟩ := on_writeNames_eq_ok_iff.1 hrun
  obtain ⟨done, hdone, hfollows⟩ := h.write hadmits hrooted hgrows hwrite
  exact ⟨done, on_writeNames_eq_ok_iff.2 ⟨rfl, hdone⟩, hfollows⟩

theorem replay_writeSnapshot (h : Follows origin tree second) (hadmits : Admits origin last)
    (hrooted : tree.IsRooted) (hgrows : Grows after last)
    (hrun : (project.writeSnapshot resolution).on tree = (.ok path, after)) :
    ∃ done, (project.writeSnapshot resolution).on second = (.ok path, done)
      ∧ Follows origin after done := by
  obtain ⟨rfl, snapshot, hsnapshot, hwrite⟩ := on_writeSnapshot_eq_ok_iff.1 hrun
  obtain ⟨done, hdone, hfollows⟩ := h.write hadmits hrooted hgrows hwrite
  exact ⟨done, on_writeSnapshot_eq_ok_iff.2 ⟨rfl, snapshot, hsnapshot, hdone⟩, hfollows⟩

theorem replay_writeMapsInto {folder : String} {maps : List LookupMap}
    (h : Follows origin tree second) (hadmits : Admits origin last) (hrooted : tree.IsRooted)
    (hgrows : Grows after last)
    (hrun : (writeMapsInto folder maps).on tree = (.ok written, after)) :
    ∃ done, (writeMapsInto folder maps).on second = (.ok written, done)
      ∧ Follows origin after done := by
  induction maps generalizing tree second written with
  | nil =>
    rw [on_writeMapsInto_nil, Prod.mk.injEq] at hrun
    obtain ⟨hwritten, rfl⟩ := hrun
    exact ⟨second, by rw [on_writeMapsInto_nil, hwritten], h⟩
  | cons map rest ih =>
    obtain ⟨between, more, hwrite, hrest, rfl⟩ := on_writeMapsInto_cons_eq_ok_iff.1 hrun
    have hbetween := (changes_of_writeMapsInto hrest).grows.trans hgrows
    obtain ⟨next, hnext, hfollows⟩ := h.write hadmits hrooted hbetween hwrite
    obtain ⟨done, hdone, hlast⟩ := ih hfollows (hrooted.write hwrite) hrest
    exact ⟨done, on_writeMapsInto_cons_eq_ok_iff.2 ⟨next, more, hnext, hdone, rfl⟩, hlast⟩

theorem replay_writeMaps (h : Follows origin tree second) (hadmits : Admits origin last)
    (hrooted : tree.IsRooted) (hgrows : Grows after last)
    (hrun : (project.writeMaps resolution).on tree = (.ok written, after)) :
    ∃ done, (project.writeMaps resolution).on second = (.ok written, done)
      ∧ Follows origin after done := by
  cases hengine : resolution.engine.usesMapFiles with
  | false =>
    rw [on_writeMaps_of_not_usesMapFiles hengine, Prod.mk.injEq] at hrun
    obtain ⟨hwritten, rfl⟩ := hrun
    exact ⟨second, by rw [on_writeMaps_of_not_usesMapFiles hengine, hwritten], h⟩
  | true =>
    obtain ⟨maps, made, hmaps, hmade, hwrite⟩ := (on_writeMaps_eq_ok_iff hengine).1 hrun
    have hgrown := (changes_of_writeMapsInto hwrite).grows.trans hgrows
    have hfolder : ∃ done,
        withMapFolder (project.path project.settings.maps) maps second = .ok done
          ∧ Follows origin made done := by
      unfold withMapFolder at hmade ⊢
      split at hmade
      · next hempty =>
        obtain rfl : tree = made := Except.ok.inj hmade
        exact ⟨second, if_pos hempty, h⟩
      · next hempty =>
        rw [if_neg hempty]
        exact h.makeFolders hadmits hgrown hmade
    obtain ⟨next, hnext, hfollows⟩ := hfolder
    obtain ⟨done, hdone, hlast⟩ := replay_writeMapsInto hfollows hadmits
      ((changes_of_withMapFolder hmade).rooted hrooted) hgrows hwrite
    exact ⟨done, (on_writeMaps_eq_ok_iff hengine).2 ⟨maps, next, hmaps, hnext, hdone⟩, hlast⟩

theorem replay_compile {artifact : String} (h : Follows origin tree second)
    (hadmits : Admits origin last) (hrooted : tree.IsRooted) (hgrows : Grows after last)
    (hrendering : Refines (project.rendering context artifact tree)
      (project.rendering context artifact second))
    (hrun : (project.compile context artifact).on tree = (.ok path, after)) :
    ∃ done, (project.compile context artifact).on second = (.ok path, done)
      ∧ Follows origin after done := by
  obtain ⟨rfl, rendered, made, hrendered, hmade, hwrite⟩ := on_compile_eq_ok_iff.1 hrun
  have hgrown := (Grows.write hwrite).trans hgrows
  have hfolder : ∃ done, second.makeParent (project.path artifact) = .ok done
      ∧ Follows origin made done ∧ made.IsRooted := by
    unfold makeParent at hmade ⊢
    split at hmade
    · obtain ⟨done, hdone, hfollows⟩ := h.makeFolders hadmits hgrown hmade
      exact ⟨done, hdone, hfollows, hrooted.makeFolders hmade⟩
    · obtain rfl : tree = made := Except.ok.inj hmade
      exact ⟨second, rfl, h, hrooted⟩
  obtain ⟨next, hnext, hfollows, hmadeRooted⟩ := hfolder
  obtain ⟨done, hdone, hlast⟩ := hfollows.write hadmits hmadeRooted hgrows hwrite
  exact ⟨done, on_compile_eq_ok_iff.2
    ⟨rfl, rendered, next, hrendering rendered hrendered, hnext, hdone⟩, hlast⟩

/-- Artifacts are compiled to the same texts, if the run touches no stop of their templates. -/
theorem replay_compileAll {artifacts : List String} (h : Follows origin tree second)
    (hadmits : Admits origin last) (hrooted : before.IsRooted)
    (hstage : Stage paths before last tree) (horigin : Stage paths before last origin)
    (hgrows : Grows after last)
    (hsources : ∀ artifact ∈ artifacts, ∀ stop ∈ stops (project.path (templateSource artifact)),
      ¬Touched paths before last stop)
    (hwritten : ∀ path ∈ written, path ∈ paths)
    (hrun : (project.compileAll context artifacts).on tree = (.ok written, after)) :
    ∃ done, (project.compileAll context artifacts).on second = (.ok written, done)
      ∧ Follows origin after done := by
  induction artifacts generalizing tree second written with
  | nil =>
    rw [on_compileAll_nil, Prod.mk.injEq] at hrun
    obtain ⟨hwritten, rfl⟩ := hrun
    exact ⟨second, by rw [on_compileAll_nil, hwritten], h⟩
  | cons artifact rest ih =>
    obtain ⟨between, more, hfirst, hrest, rfl⟩ := on_compileAll_cons_eq_ok_iff.1 hrun
    obtain ⟨hpath, hmore⟩ := List.forall_mem_cons.1 hwritten
    obtain ⟨hsource, hsources⟩ := List.forall_mem_cons.1 hsources
    have hbetween := (changes_of_compileAll hrest).grows.trans hgrows
    have hshown := (h.shown? hrooted hstage horigin hsource).trans
      (hstage.shown? hrooted hsource).symm
    obtain ⟨next, hnext, hfollows⟩ :=
      replay_compile h hadmits hstage.rooted hbetween (rendering_refines hshown) hfirst
    have hstage' := hstage.next (changes_of_compile hfirst) hbetween
      (List.forall_mem_singleton.2 hpath)
    obtain ⟨done, hdone, hlast⟩ := ih hfollows hstage' hsources hmore hrest
    exact ⟨done, on_compileAll_cons_eq_ok_iff.2 ⟨next, more, hnext, hdone, rfl⟩, hlast⟩

/-- The document is rendered alike from trees in which its template and the files of its examples
are the same. -/
theorem apiRendering_refines {names : List String}
    (hsource : second.shown? (project.path (templateSource project.settings.api))
      = tree.shown? (project.path (templateSource project.settings.api)))
    (hexamples : ∀ name ∈ names,
      second.shown? (project.path name) = tree.shown? (project.path name)) :
    Refines (project.apiRendering resolution (Api.helpersAmong names tree project.root) tree)
      (project.apiRendering resolution (Api.helpers second project.root) second) :=
  .bind (readSource_refines hsource) fun text => .bind (.refl _) fun values =>
    .mapError (Template.renderText_refines text values (Api.helpers_refine hexamples) id)

end HubRules.Project
