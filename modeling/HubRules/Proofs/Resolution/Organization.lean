import HubRules.Api
import HubRules.Configuration.Routing
import HubRules.Proofs.Catalog.Kept
import HubRules.RenderContext

/-!
# Where the organization goes

The organization that a build is for, or that it is for all of them, reaches what is displayed
and nothing else. Two builds whose inputs differ only there resolve their configuration alike,
and their render contexts agree outside the groups of the catalog (`resolve_organization_alike`).
-/

namespace HubRules

open Outcome

namespace Members

theorem get?_setAll_congr {a b : Members} {key : String} (h : a.get? key = b.get? key)
    (added : List (String × Json)) : (a.setAll added).get? key = (b.setAll added).get? key := by
  induction added generalizing a b with
  | nil => exact h
  | cons member rest ih =>
    refine ih ?_
    rw [get?_set, get?_set, h]

end Members

/-- Two resolutions from which the same rules, lookup maps and interface document are made. -/
structure Resolution.AlikeForProxy (first second : Resolution) : Prop where
  base : first.base = second.base
  proxy : first.proxy = second.proxy
  engine : first.engine = second.engine
  api : Api.values first = Api.values second
  lookupMaps : first.base.lookupMaps = second.base.lookupMaps

/-- Two render contexts that differ at most in the groups of the catalog. -/
structure RenderContext.AlikeOutsideGroups (first second : RenderContext) : Prop where
  values : ∀ key, key ≠ "groups" → first.values.get? key = second.values.get? key
  helpers : ∀ name text, first.helpers.call name text = second.helpers.call name text

section

variable (config : Configuration) (source : String) (inputs : BuildInputs)
  (organization : Option String) (combined : Bool)

/-- The organization decides only what stands for the placeholder in what is displayed. -/
theorem Resolution.resolve_organization :
    resolve config source { inputs with organization, combined } =
      (resolve config source inputs).map fun resolution =>
        { resolution with
          displayMode := { inputs with organization, combined : BuildInputs }.displayMode } := by
  have hinputs : config.applyInputs { inputs with organization, combined }
      = config.applyInputs inputs := rfl
  have hengine : config.engineFor { inputs with organization, combined }
      = config.engineFor inputs := rfl
  unfold resolve
  rw [hinputs, hengine]
  cases config.applyInputs inputs <;> rfl

variable {config source inputs organization combined}

theorem CatalogView.get?_members_congr {first second : CatalogView}
    (hextra : first.extra = second.extra) {key : String} (hkey : key ≠ "groups") :
    first.members.get? key = second.members.get? key := by
  unfold CatalogView.members
  rw [hextra]
  refine Members.get?_setAll_congr ?_ second.extra
  simp [Members.get?, List.lookup_cons, beq_eq_false_iff_ne.2 hkey]

/-- What is derived for templates takes from the catalog its lists of names only, and from the
inputs neither the organization nor whether it is for all of them. -/
theorem RenderContext.derived_organization {resolution : Resolution} {mode : Placeholder}
    {first second : CatalogView} (hunits : first.units = second.units) :
    derived { resolution with displayMode := mode } second { inputs with organization, combined }
      = derived resolution first inputs := by
  have hnames : second.names = first.names := by rw [CatalogView.names, CatalogView.names, hunits]
  have hproxied : second.proxiedNames = first.proxiedNames := by
    rw [CatalogView.proxiedNames, CatalogView.proxiedNames, hunits]
  unfold derived
  rw [hnames, hproxied]

theorem RenderContext.assemble_organization {resolution : Resolution} {mode : Placeholder}
    {first second : CatalogView} (hunits : first.units = second.units)
    (hextra : first.extra = second.extra) :
    SameOutcome AlikeOutsideGroups (assemble resolution first inputs)
      (assemble { resolution with displayMode := mode } second
        { inputs with organization, combined }) := by
  unfold assemble
  rw [derived_organization hunits]
  cases derived resolution first inputs with
  | error cause => exact .error cause
  | ok found =>
    refine .ok ⟨fun key hkey => ?_, fun _ _ => rfl⟩
    refine Members.get?_setAll_congr (Members.get?_setAll_congr ?_ _) _
    exact CatalogView.get?_members_congr hextra hkey

variable (config source inputs organization combined)

/-- Two builds of a configuration whose inputs differ only in the organization, and in whether
they are for all organizations, end in the same error or in resolutions from which the same
rules, lookup maps and interface document are made. If the catalog can then be shown for both,
their render contexts end in the same error or differ at most in the groups of the catalog. -/
theorem resolve_organization_alike (catalog : Catalog) (messages : Messages) :
    SameOutcome
      (fun first second => first.AlikeForProxy second ∧ ∀ firstView secondView,
        CatalogView.ofCatalog first.display messages inputs.names catalog = .ok firstView →
        CatalogView.ofCatalog second.display messages inputs.names catalog = .ok secondView →
        SameOutcome RenderContext.AlikeOutsideGroups
          (RenderContext.assemble first firstView inputs)
          (RenderContext.assemble second secondView { inputs with organization, combined }))
      (Resolution.resolve config source inputs)
      (Resolution.resolve config source { inputs with organization, combined }) := by
  rw [Resolution.resolve_organization config source inputs organization combined]
  cases Resolution.resolve config source inputs with
  | error cause => exact .error cause
  | ok resolution =>
    refine .ok ⟨⟨rfl, rfl, rfl, rfl, rfl⟩, fun firstView secondView hfirst hsecond => ?_⟩
    obtain ⟨hunits, hextra⟩ := CatalogView.ofCatalog_eq_ok hfirst
    obtain ⟨hunits', hextra'⟩ := CatalogView.ofCatalog_eq_ok hsecond
    exact RenderContext.assemble_organization (hunits.trans hunits'.symm)
      (hextra.trans hextra'.symm)

end

end HubRules
