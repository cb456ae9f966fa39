import HubRules.CatalogView
import HubRules.Proofs.Outcome

/-!
# What a shown catalog keeps

The units of a catalog as it is shown are those that the allow-list has, in the order of the
catalog, and its further fields are those of the catalog (`ofCatalog_eq_ok`). They depend
neither on the configuration that is displayed nor on the messages.
-/

namespace HubRules

open Outcome

/-- The units of a catalog that an allow-list has; without one, all of them. -/
def Catalog.kept (catalog : Catalog) (allowed : Option (List String)) : List VisualizationUnit :=
  catalog.groups.flatMap fun group =>
    group.items.filter fun unit => allowed.all (·.contains unit.id)

variable {display : Configuration} {messages : Messages}

/-- The link and the download of a unit are computed one after the other; all else is put
together from the unit. -/
theorem UnitView.exists_ofUnit_eq (unit : VisualizationUnit) :
    ∃ link download : Except BuildError String, UnitView.ofUnit display messages unit =
      link >>= fun link => download >>= fun download => pure ⟨unit, link, download,
        messages.markup (unit.id ++ "-title"), messages.markup (unit.id ++ "-content")⟩ := by
  unfold UnitView.ofUnit
  cases unit.url with
  | none => cases unit.download with
    | none => exact ⟨_, _ >>= fun folder => pure _, by simp only [bind_assoc]; rfl⟩
    | some download => exact ⟨_, _, rfl⟩
  | some url => cases unit.download with
    | none => exact ⟨_, _ >>= fun folder => pure _, by simp only [bind_assoc]; rfl⟩
    | some download => exact ⟨_, _, rfl⟩

theorem UnitView.unit_ofUnit {unit : VisualizationUnit} {view : UnitView}
    (h : UnitView.ofUnit display messages unit = .ok view) : view.unit = unit := by
  obtain ⟨linked, downloaded, heq⟩ := UnitView.exists_ofUnit_eq unit
  rw [heq] at h
  obtain ⟨link, -, h⟩ := bind_eq_ok_iff.1 h
  obtain ⟨download, -, h⟩ := bind_eq_ok_iff.1 h
  rw [← Except.ok.inj h]

theorem GroupView.units_ofGroup {allows : String → Bool} {group : VisualizationGroup}
    {view : GroupView} (h : GroupView.ofGroup display messages allows group = .ok view) :
    view.items.map (·.unit) = group.items.filter (allows ·.id) := by
  unfold GroupView.ofGroup at h
  obtain ⟨items, hitems, h⟩ := bind_eq_ok_iff.1 h
  rw [← Except.ok.inj h]
  calc items.map (·.unit)
      = (group.items.filter (allows ·.id)).map id :=
        map_eq_map_of_mapM
          (fun _ _ hunit => UnitView.unit_ofUnit (mapError_eq_ok_iff.1 hunit)) hitems
    _ = group.items.filter (allows ·.id) := List.map_id _

theorem CatalogView.ofCatalog_eq_ok {allowed : Option (List String)} {catalog : Catalog}
    {view : CatalogView} (h : CatalogView.ofCatalog display messages allowed catalog = .ok view) :
    view.units = catalog.kept allowed ∧ view.extra = catalog.extra := by
  unfold CatalogView.ofCatalog at h
  obtain ⟨groups, hgroups, h⟩ := bind_eq_ok_iff.1 h
  rw [← Except.ok.inj h]
  refine ⟨?_, rfl⟩
  have hunits := map_eq_map_of_mapM (fun _ _ => GroupView.units_ofGroup) hgroups
  rw [CatalogView.units, Catalog.kept, List.flatMap_def, hunits, ← List.flatMap_def]

end HubRules
