import HubRules.Proofs.Catalog.Kept

/-!
# Allow-lists

It does not matter whether an allow-list is applied before anything is computed for the units of a
catalog or to what was computed for all of them (`ofCatalog_allowed`). What the list saves is the
units for which nothing can be computed: a catalog that cannot be shown without the list is shown
with it unless the list has such a unit, and the first one in the order of the catalog is named.
-/

namespace HubRules

open Outcome

def Catalog.units (catalog : Catalog) : List VisualizationUnit := catalog.groups.flatMap (·.items)

/-- The first unit of an allow-list for which what is shown cannot be computed. -/
def Catalog.failing? (catalog : Catalog) (display : Configuration) (messages : Messages)
    (ids : List String) : Option VisualizationUnit :=
  catalog.units.find? fun unit =>
    ids.contains unit.id && !(UnitView.ofUnit display messages unit).isOk

/-- A group as it is shown, without the units that an allow-list has not. -/
def GroupView.restrict (view : GroupView) (ids : List String) : GroupView :=
  { view with items := view.items.filter fun item => ids.contains item.unit.id }

/-- A catalog as it is shown, without the units that an allow-list has not. Every group stays. -/
def CatalogView.restrict (view : CatalogView) (ids : List String) : CatalogView :=
  { view with groups := view.groups.map (·.restrict ids) }

theorem Catalog.kept_eq_filter (catalog : Catalog) (ids : List String) :
    catalog.kept (some ids) = catalog.units.filter fun unit => ids.contains unit.id := by
  rw [units, List.filter_flatMap]
  rfl

namespace CatalogView

/-! ## Units that are kept -/

theorem units_restrict (view : CatalogView) (ids : List String) :
    (view.restrict ids).units = view.units.filter fun unit => ids.contains unit.id := by
  have hgroup : ∀ group : GroupView, (group.restrict ids).items.map (·.unit)
      = (group.items.map (·.unit)).filter fun unit => ids.contains unit.id := by
    intro group
    rw [List.filter_map]
    rfl
  calc (view.restrict ids).units
      = view.groups.flatMap fun group => (group.restrict ids).items.map (·.unit) :=
        List.flatMap_map ..
    _ = view.groups.flatMap fun group =>
          (group.items.map (·.unit)).filter fun unit => ids.contains unit.id := by
        simp only [hgroup]
    _ = view.units.filter fun unit => ids.contains unit.id := by rw [units, List.filter_flatMap]

theorem names_restrict (view : CatalogView) (ids : List String) :
    (view.restrict ids).names
      = ((view.units.filter (·.index)).filter fun unit => ids.contains unit.id).map
          (·.repository) := by
  simp only [names, units_restrict, List.filter_filter, Bool.and_comm]

theorem names_restrict_sublist (view : CatalogView) (ids : List String) :
    (view.restrict ids).names.Sublist view.names := by
  rw [names_restrict]
  exact List.filter_sublist.map _

theorem proxiedNames_restrict (view : CatalogView) (ids : List String) :
    (view.restrict ids).proxiedNames = view.proxiedNames.filter fun id => ids.contains id := by
  rw [proxiedNames, proxiedNames, units_restrict, List.filter_map, List.filter_filter,
    List.filter_filter]
  simp only [Bool.and_comm, Function.comp_def]

/-! ## Runs with and without an allow-list -/

variable {display : Configuration} {messages : Messages} {catalog : Catalog}

theorem ofGroup_restrict {group : VisualizationGroup} {view : GroupView} (ids : List String)
    (h : GroupView.ofGroup display messages (fun _ => true) group = .ok view) :
    GroupView.ofGroup display messages (fun id => ids.contains id) group
      = .ok (view.restrict ids) := by
  unfold GroupView.ofGroup at h ⊢
  obtain ⟨items, hitems, h⟩ := bind_eq_ok_iff.1 h
  obtain rfl := Except.ok.inj h
  rw [List.filter_eq_self.2 fun _ _ => rfl] at hitems
  have hkept := mapM_filter_eq_ok
    (fun unit (item : UnitView) hunit => congrArg (fun unit => ids.contains unit.id)
      (UnitView.unit_ofUnit (mapError_eq_ok_iff.1 hunit))) hitems
  exact bind_eq_ok_iff.2 ⟨_, hkept, rfl⟩

theorem ofCatalog_restrict {view : CatalogView} (ids : List String)
    (h : ofCatalog display messages none catalog = .ok view) :
    ofCatalog display messages (some ids) catalog = .ok (view.restrict ids) := by
  unfold ofCatalog at h ⊢
  obtain ⟨groups, hgroups, h⟩ := bind_eq_ok_iff.1 h
  obtain rfl := Except.ok.inj h
  have hkept := mapM_eq_ok_of_change (fun _ _ hgroup => ofGroup_restrict ids hgroup) hgroups
  exact bind_eq_ok_iff.2 ⟨_, hkept, rfl⟩

/-- An allow-list counts as the set of its ids. -/
theorem ofCatalog_congr {ids others : List String} (h : ∀ id, id ∈ others ↔ id ∈ ids) :
    ofCatalog display messages (some others) catalog
      = ofCatalog display messages (some ids) catalog := by
  have hallows : ∀ id, others.contains id = ids.contains id := by
    intro id
    rw [List.contains_eq_mem, List.contains_eq_mem, decide_eq_decide]
    exact h id
  unfold ofCatalog
  simp only [Option.all_some, hallows]

/-- A catalog fails at the first unit for which what is shown cannot be computed. -/
theorem ofCatalog_eq_error_iff {allowed : Option (List String)} {fault : BuildError} :
    ofCatalog display messages allowed catalog = .error fault ↔
      ∃ unit cause, (catalog.kept allowed).find?
          (fun unit => !(UnitView.ofUnit display messages unit).isOk) = some unit
        ∧ UnitView.ofUnit display messages unit = .error cause
        ∧ fault = .during (.enriching unit.id) cause := by
  have hisOk : ∀ unit, ((UnitView.ofUnit display messages unit).mapError
      (BuildError.during (.enriching unit.id))).isOk = (UnitView.ofUnit display messages unit).isOk := by
    intro unit
    cases UnitView.ofUnit display messages unit <;> rfl
  have hcause : ∀ unit, (UnitView.ofUnit display messages unit).mapError
      (BuildError.during (.enriching unit.id)) = .error fault ↔
        ∃ cause, UnitView.ofUnit display messages unit = .error cause
          ∧ fault = .during (.enriching unit.id) cause := by
    intro unit
    cases UnitView.ofUnit display messages unit with
    | ok view => simp [mapError_ok]
    | error cause => simp [mapError_error, eq_comm]
  unfold ofCatalog GroupView.ofGroup
  rw [bind_pure_eq_error_iff, mapM_flatMap_eq_error_iff, mapM_eq_error_iff]
  simp only [hisOk, hcause, exists_and_left]
  rfl

theorem ofCatalog_some_eq_error_iff {ids : List String} {fault : BuildError} :
    ofCatalog display messages (some ids) catalog = .error fault ↔
      ∃ unit cause, catalog.failing? display messages ids = some unit
        ∧ UnitView.ofUnit display messages unit = .error cause
        ∧ fault = .during (.enriching unit.id) cause := by
  rw [ofCatalog_eq_error_iff, Catalog.kept_eq_filter, List.find?_filter]
  simp only [Bool.decide_and, Bool.decide_eq_true]
  rfl

variable (display messages catalog)

/-- If a catalog is shown without an allow-list, then with a list of ids the same is shown but for
the units that the list has not: groups and units keep their order, and the names and the proxied
names are those of the units that are left. Only the set of the ids counts. With the list the
catalog fails exactly if there is a unit of the list for which what is shown cannot be computed,
and the error names the first such unit of the catalog and says why it fails. -/
theorem ofCatalog_allowed (ids : List String) :
    (∀ view, ofCatalog display messages none catalog = .ok view →
      ofCatalog display messages (some ids) catalog = .ok (view.restrict ids)
        ∧ (view.restrict ids).names.Sublist view.names
        ∧ (view.restrict ids).names
          = ((view.units.filter (·.index)).filter fun unit => ids.contains unit.id).map
              (·.repository)
        ∧ (view.restrict ids).proxiedNames = view.proxiedNames.filter fun id => ids.contains id)
    ∧ (∀ others, (∀ id, id ∈ others ↔ id ∈ ids) →
      ofCatalog display messages (some others) catalog
        = ofCatalog display messages (some ids) catalog)
    ∧ ∀ fault, ofCatalog display messages (some ids) catalog = .error fault ↔
      ∃ unit cause, catalog.failing? display messages ids = some unit
        ∧ UnitView.ofUnit display messages unit = .error cause
        ∧ fault = .during (.enriching unit.id) cause := by
  refine ⟨?_, ?_, ?_⟩
  · intro view hview
    exact ⟨ofCatalog_restrict ids hview, view.names_restrict_sublist ids,
      view.names_restrict ids, view.proxiedNames_restrict ids⟩
  · intro others hothers
    exact ofCatalog_congr hothers
  · intro fault
    exact ofCatalog_some_eq_error_iff

/-- Two groups of one unit. The second unit says nothing about its download. -/
def halfOpenCatalog : Catalog where
  groups := ["a", "b"].map fun id => {
    id := id ++ "s"
    items := [{
      id, url := some "/", download := if id = "a" then some "/a.zip" else none, icon := [],
      index := true, proxied := true, repo := none, skipTest := false, extra := [] }]
    extra := [] }
  extra := []

/-- With a folder for downloads the catalog is shown without a list, and a list that names its
second unit twice leaves the group of the first one empty. Without the folder no list helps but one
that has not the second unit. -/
theorem ofCatalog_allowed_halfOpen :
    (∃ view, ofCatalog ⟨[("download_url", .string "/d/")]⟩ .empty none halfOpenCatalog = .ok view
      ∧ ofCatalog ⟨[("download_url", .string "/d/")]⟩ .empty (some ["b", "b"]) halfOpenCatalog
        = .ok (view.restrict ["b", "b"])
      ∧ (view.restrict ["b", "b"]).groups.map (·.items.length) = [0, 1])
    ∧ ofCatalog ⟨[]⟩ .empty (some ["b", "a"]) halfOpenCatalog
      = .error (.during (.enriching "b") (.configuration (.missingKey "download_url")))
    ∧ ∀ fault, ofCatalog ⟨[]⟩ .empty (some ["a", "a"]) halfOpenCatalog ≠ .error fault := by
  refine ⟨⟨_, rfl, ?_, rfl⟩, ?_, ?_⟩
  · exact ((ofCatalog_allowed _ _ _ _).1 _ rfl).1
  · exact ((ofCatalog_allowed _ _ _ _).2.2 _).2 ⟨_, _, rfl, rfl, rfl⟩
  · intro fault hfault
    obtain ⟨unit, cause, hfailing, -⟩ := ((ofCatalog_allowed _ _ _ _).2.2 fault).1 hfault
    exact nomatch (show none = some unit from hfailing)

end CatalogView

end HubRules
