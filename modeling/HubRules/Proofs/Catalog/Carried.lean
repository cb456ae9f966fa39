import Mathlib
import HubRules.Proofs.Catalog.Extra
import HubRules.Proofs.Catalog.Kept
import HubRules.Proofs.Helper.UrlKeys
import HubRules.RenderContext

/-!
# Computed fields in a render context

Templates see the catalog as the value `groups`, in which a further field of a group or a unit
takes the place of a computed one of its name. A catalog that was read has no further field with
the name of a field that is read, so what is shown under such a name is carried as it is computed
(`reserved`). The other computed fields (`exposed`) are carried exactly if no group and no unit
gives another value under their names (`assemble_carries_iff`).
-/

namespace HubRules

open Outcome

/-- Whether an object has members of given names and values. -/
def Json.Carries (value : Json) (fields : Members) : Prop :=
  ∀ field ∈ fields, value.get? field.1 = some field.2

/-- Whether members give none of the fields another value. -/
def Members.Spares (members fields : Members) : Prop :=
  ∀ field ∈ fields, ∀ value, members.get? field.1 = some value → value = field.2

/-- The computed fields of a unit that have the name of one that is read. -/
def UnitView.reserved (view : UnitView) : Members :=
  [("id", .string view.unit.id), ("repo", .string view.unit.repository),
    ("index", .bool view.unit.index), ("nginx", .bool view.unit.proxied),
    ("skip_test", .bool view.unit.skipTest), ("download", .string view.download),
    ("icon", .string (iconMarkup view.unit.icon))]

/-- The computed fields of a unit whose names a further field may have. -/
def UnitView.exposed (view : UnitView) : Members :=
  [("show", .string view.link), ("icon_parts", .ofStrings view.unit.icon),
    ("title", .string view.title), ("content", .string view.content)]

def UnitView.computed (view : UnitView) : Members := view.reserved ++ view.exposed

/-- The computed field of a group that has the name of one that is read. -/
def GroupView.reserved (view : GroupView) : Members := [("id", .string view.group.id)]

/-- The computed field of a group whose name a further field may have. -/
def GroupView.exposed (view : GroupView) : Members := [("title", .string view.title)]

def GroupView.computed (view : GroupView) : Members := view.reserved ++ view.exposed

/-- Whether the groups of a catalog and their items are among the values of templates, one by one
and in order, with the fields that are asked for. -/
def CatalogView.CarriedIn (view : CatalogView) (groupFields : GroupView → Members)
    (unitFields : UnitView → Members) (values : Members) : Prop :=
  ∃ groups, values.get? "groups" = some (.array groups) ∧
    List.Forall₂ (fun (group : GroupView) (shown : Json) => shown.Carries (groupFields group) ∧
      ∃ items, shown.get? "items" = some (.array items) ∧
        List.Forall₂ (fun (item : UnitView) (shown : Json) => shown.Carries (unitFields item))
          group.items items) view.groups groups

/-! ## Fields of one object -/

/-- Where further members are set in an object, its fields are carried exactly if those spare
them. -/
theorem Json.carries_iff_spares {value : Json} {extra fields : Members}
    (h : ∀ field ∈ fields, value.get? field.1 = some ((extra.get? field.1).getD field.2)) :
    value.Carries fields ↔ extra.Spares fields := by
  refine forall₂_congr fun field hfield => ?_
  rw [h field hfield]
  cases extra.get? field.1 with
  | none => simp
  | some other => simp

theorem Members.Beside.spares {members fields : Members} {names : List String}
    (h : members.Beside names) (hfields : ∀ name ∈ fields.names, name ∈ names) :
    members.Spares fields := by
  intro field hfield value hvalue
  rw [h.get?_eq_none (hfields _ (List.mem_map_of_mem hfield))] at hvalue
  cases hvalue

/-- Fields with the names of ones that are read are carried in any case; all fields together are
carried if the other ones are spared. -/
theorem Json.carries_append_iff {value : Json} {extra reserved exposed : Members}
    {names : List String} (hextra : extra.Beside names)
    (hnames : ∀ name ∈ reserved.names, name ∈ names)
    (h : ∀ field ∈ reserved ++ exposed,
      value.get? field.1 = some ((extra.get? field.1).getD field.2)) :
    value.Carries reserved ∧ (value.Carries (reserved ++ exposed) ↔ extra.Spares exposed) := by
  have hspared : extra.Spares reserved := hextra.spares hnames
  constructor
  · exact (carries_iff_spares fun _ hfield => h _ (List.mem_append_left _ hfield)).2 hspared
  · rw [carries_iff_spares h]
    unfold Members.Spares
    rw [List.forall_mem_append]
    exact and_iff_right hspared

namespace UnitView

variable {view : UnitView}

theorem get?_toJson (h : view.unit.extra.names.Nodup) {field : String × Json}
    (hfield : field ∈ view.computed) :
    view.toJson.get? field.1 = some ((view.unit.extra.get? field.1).getD field.2) := by
  unfold toJson Json.get?
  rw [Json.members?, Option.bind_some, Members.get?_setAll h, ← Option.or_some]
  congr 1
  -- the template of a URL may stand between the computed fields; none of them is named like it
  cases view.unit.url <;>
    simp only [computed, reserved, exposed, List.cons_append, List.nil_append, List.mem_cons,
      List.not_mem_nil, or_false] at hfield <;>
    rcases hfield with rfl | rfl | rfl | rfl | rfl | rfl | rfl | rfl | rfl | rfl | rfl <;>
    rfl

theorem carries_iff (h : view.unit.extra.Beside VisualizationUnit.fieldNames) :
    view.toJson.Carries view.reserved
      ∧ (view.toJson.Carries view.computed ↔ view.unit.extra.Spares view.exposed) :=
  Json.carries_append_iff h (by simp [reserved, Members.names, VisualizationUnit.fieldNames])
    fun _ => get?_toJson h.nodup

end UnitView

namespace GroupView

variable {view : GroupView}

theorem get?_toJson (h : view.group.extra.names.Nodup) {field : String × Json}
    (hfield : field ∈ view.computed) :
    view.toJson.get? field.1 = some ((view.group.extra.get? field.1).getD field.2) := by
  unfold toJson Json.get?
  rw [Json.members?, Option.bind_some, Members.get?_setAll h, ← Option.or_some]
  congr 1
  simp only [computed, reserved, exposed, List.cons_append, List.nil_append, List.mem_cons,
    List.not_mem_nil, or_false] at hfield
  rcases hfield with rfl | rfl <;> rfl

theorem carries_iff (h : view.group.extra.Beside VisualizationGroup.fieldNames) :
    view.toJson.Carries view.reserved
      ∧ (view.toJson.Carries view.computed ↔ view.group.extra.Spares view.exposed) :=
  Json.carries_append_iff h (by simp [reserved, Members.names, VisualizationGroup.fieldNames])
    fun _ => get?_toJson h.nodup

theorem items_toJson (h : view.group.extra.Beside VisualizationGroup.fieldNames) :
    view.toJson.get? "items" = some (.array (view.items.map UnitView.toJson)) := by
  unfold toJson Json.get?
  rw [Json.members?, Option.bind_some, Members.get?_setAll_of_notMem]
  · rfl
  · exact h.notMem "items" (by simp [VisualizationGroup.fieldNames])

end GroupView

/-! ## The whole catalog -/

/-- A shown catalog whose further fields at each level stand beside the ones that are read. -/
structure CatalogView.ExtraBeside (view : CatalogView) : Prop where
  extra : view.extra.Beside ["groups"]
  groups : ∀ group ∈ view.groups, group.group.extra.Beside VisualizationGroup.fieldNames
  items : ∀ group ∈ view.groups, ∀ item ∈ group.items,
    item.unit.extra.Beside VisualizationUnit.fieldNames

namespace CatalogView

variable {view : CatalogView} {values : Members} {groupFields : GroupView → Members}
  {unitFields : UnitView → Members}

theorem groups_ofCatalog {display : Configuration} {messages : Messages}
    {allowed : Option (List String)} {catalog : Catalog}
    (h : ofCatalog display messages allowed catalog = .ok view) :
    view.groups.map (·.group) = catalog.groups := by
  unfold ofCatalog at h
  obtain ⟨groups, hgroups, h⟩ := bind_eq_ok_iff.1 h
  rw [← Except.ok.inj h, ← List.map_id catalog.groups]
  refine map_eq_map_of_mapM (fun group shown hshown => ?_) hgroups
  unfold GroupView.ofGroup at hshown
  obtain ⟨items, -, hshown⟩ := bind_eq_ok_iff.1 hshown
  rw [← Except.ok.inj hshown]
  rfl

theorem extraBeside_ofCatalog {display : Configuration} {messages : Messages}
    {allowed : Option (List String)} {catalog : Catalog} (hcatalog : catalog.ExtraBeside)
    (h : ofCatalog display messages allowed catalog = .ok view) : view.ExtraBeside where
  extra := by
    rw [(ofCatalog_eq_ok h).2]
    exact hcatalog.extra
  groups group hgroup := by
    have hmem : group.group ∈ catalog.groups := groups_ofCatalog h ▸ List.mem_map_of_mem hgroup
    exact (hcatalog.groups _ hmem).extra
  items group hgroup item hitem := by
    have hunit : item.unit ∈ view.units :=
      List.mem_flatMap.2 ⟨group, hgroup, List.mem_map_of_mem hitem⟩
    rw [(ofCatalog_eq_ok h).1] at hunit
    obtain ⟨source, hsource, hkept⟩ := List.mem_flatMap.1 hunit
    exact (hcatalog.groups source hsource).items _ (List.mem_of_mem_filter hkept)

theorem carriedIn_iff (h : view.ExtraBeside)
    (hvalues : values.get? "groups" = some (.array (view.groups.map GroupView.toJson))) :
    view.CarriedIn groupFields unitFields values ↔
      ∀ group ∈ view.groups, group.toJson.Carries (groupFields group)
        ∧ ∀ item ∈ group.items, item.toJson.Carries (unitFields item) := by
  unfold CarriedIn
  rw [hvalues]
  simp only [Option.some.injEq, Json.array.injEq, exists_eq_left', List.forall₂_map_right_iff,
    List.forall₂_same]
  refine forall₂_congr fun group hgroup => and_congr_right fun _ => ?_
  rw [GroupView.items_toJson (h.groups group hgroup)]
  simp only [Option.some.injEq, Json.array.injEq, exists_eq_left', List.forall₂_map_right_iff,
    List.forall₂_same]

end CatalogView

namespace RenderContext

variable {resolution : Resolution} {view : CatalogView} {inputs : BuildInputs}

theorem groups_notMem_derived {values : Members} (h : derived resolution view inputs = .ok values) :
    "groups" ∉ values.names := by
  unfold derived at h
  obtain ⟨_, -, h⟩ := bind_eq_ok_iff.1 h
  obtain ⟨_, -, h⟩ := bind_eq_ok_iff.1 h
  obtain ⟨_, -, h⟩ := bind_eq_ok_iff.1 h
  obtain ⟨_, -, h⟩ := bind_eq_ok_iff.1 h
  obtain ⟨_, -, h⟩ := bind_eq_ok_iff.1 h
  obtain ⟨_, -, h⟩ := bind_eq_ok_iff.1 h
  rw [← Except.ok.inj h]
  simp [Members.names]

theorem get?_groups_assemble {context : RenderContext} (hview : view.ExtraBeside)
    (hfree : resolution.base.get? "groups" = none)
    (h : assemble resolution view inputs = .ok context) :
    context.values.get? "groups" = some (.array (view.groups.map GroupView.toJson)) := by
  unfold assemble at h
  obtain ⟨values, hderived, h⟩ := bind_eq_ok_iff.1 h
  have hproxy : resolution.proxy.get? "groups" = none := by
    unfold Resolution.proxy
    rw [Configuration.get?_resolveUrls, hfree, Option.map_none]
  rw [← Except.ok.inj h]
  calc ((view.members.setAll resolution.proxy.members).setAll values).get? "groups"
      = (view.members.setAll resolution.proxy.members).get? "groups" :=
        Members.get?_setAll_of_notMem (groups_notMem_derived hderived)
    _ = view.members.get? "groups" :=
        Members.get?_setAll_of_notMem (Members.get?_eq_none_iff.1 hproxy)
    _ = some (.array (view.groups.map GroupView.toJson)) :=
        Members.get?_setAll_of_notMem (hview.extra.notMem _ (List.mem_singleton.2 rfl))

/-- What templates see of a catalog that was read, with a configuration that has no key `groups`:
every group and every item with its computed fields under the names of fields that are read, and
with all of its computed fields exactly if no group and no item that is shown gives another value
under the name of one. -/
theorem assemble_carries_iff {text : Text} {catalog : Catalog} {display : Configuration}
    {messages : Messages} {allowed : Option (List String)} {context : RenderContext}
    (hread : Catalog.read text = .ok catalog)
    (hview : CatalogView.ofCatalog display messages allowed catalog = .ok view)
    (hfree : resolution.base.get? "groups" = none)
    (hcontext : assemble resolution view inputs = .ok context) :
    view.CarriedIn GroupView.reserved UnitView.reserved context.values
      ∧ (view.CarriedIn GroupView.computed UnitView.computed context.values ↔
        ∀ group ∈ view.groups, group.group.extra.Spares group.exposed
          ∧ ∀ item ∈ group.items, item.unit.extra.Spares item.exposed) := by
  have hbeside := CatalogView.extraBeside_ofCatalog (Catalog.read_extraBeside hread) hview
  have hgroups := get?_groups_assemble hbeside hfree hcontext
  rw [CatalogView.carriedIn_iff hbeside hgroups, CatalogView.carriedIn_iff hbeside hgroups]
  constructor
  · exact fun group hgroup => ⟨(GroupView.carries_iff (hbeside.groups group hgroup)).1,
      fun item hitem => (UnitView.carries_iff (hbeside.items group hgroup item hitem)).1⟩
  · refine forall₂_congr fun group hgroup => and_congr ?_ (forall₂_congr fun item hitem => ?_)
    · exact (GroupView.carries_iff (hbeside.groups group hgroup)).2
    · exact (UnitView.carries_iff (hbeside.items group hgroup item hitem)).2

/-- A catalog of one group with one unit, which has a title of its own. -/
def titledDocument : Text :=
  "\x7b\"groups\":[\x7b\"id\":\"g\",\"items\":[\x7b\"id\":\"a\",\"title\":\"plain\"\x7d]\x7d]\x7d".toList

def titledUnit : VisualizationUnit :=
  ⟨"a", none, none, [], true, true, none, false, [("title", .string "plain")]⟩

def titledGroup : VisualizationGroup := ⟨"g", [titledUnit], []⟩

def titledView : CatalogView where
  groups := [{
    group := titledGroup
    title := "<span data-message=\"g-title\"></span>"
    items := [{
      unit := titledUnit
      link := "a"
      download := "/d/a.zip"
      title := "<span data-message=\"a-title\"></span>"
      content := "<span data-message=\"a-content\"></span>" }] }]
  extra := []

/-- The resolution of a configuration with no more than the keys that every build reads. -/
def plainResolution : Resolution where
  source := "config.json"
  base := ⟨[("control_host", .string "c"), ("visualization_server", .string "v"),
    ("jenkins_host", .string "j"), ("hub_regex", .string ""), ("hub_redirect", .string ""),
    ("download_url", .string "/d/"), ("proxy_nginx", .bool false)]⟩
  engine := .httpd
  environment := none
  displayMode := .remove

theorem read_titledDocument : Catalog.read titledDocument = .ok ⟨[titledGroup], []⟩ := by cbv

theorem ofCatalog_titled :
    CatalogView.ofCatalog plainResolution.display .empty none ⟨[titledGroup], []⟩
      = .ok titledView := rfl

theorem assemble_carries_iff_titled :
    Catalog.read titledDocument = .ok ⟨[titledGroup], []⟩
      ∧ CatalogView.ofCatalog plainResolution.display .empty none ⟨[titledGroup], []⟩
        = .ok titledView
      ∧ plainResolution.base.get? "groups" = none
      ∧ ∃ context, assemble plainResolution titledView .none = .ok context
        ∧ titledView.CarriedIn GroupView.reserved UnitView.reserved context.values := by
  obtain ⟨context, hcontext⟩ : ∃ context, assemble plainResolution titledView .none = .ok context :=
    exists_eq_ok (by decide)
  exact ⟨read_titledDocument, ofCatalog_titled, rfl, context, hcontext,
    (assemble_carries_iff read_titledDocument ofCatalog_titled rfl hcontext).1⟩

/-- A unit's title of its own is what templates see. -/
theorem assemble_replaces_title :
    Catalog.read titledDocument = .ok ⟨[titledGroup], []⟩
      ∧ CatalogView.ofCatalog plainResolution.display .empty none ⟨[titledGroup], []⟩
        = .ok titledView
      ∧ plainResolution.base.get? "groups" = none
      ∧ ∃ context, assemble plainResolution titledView .none = .ok context
        ∧ ¬titledView.CarriedIn GroupView.computed UnitView.computed context.values := by
  obtain ⟨context, hcontext⟩ : ∃ context, assemble plainResolution titledView .none = .ok context :=
    exists_eq_ok (by decide)
  refine ⟨read_titledDocument, ofCatalog_titled, rfl, context, hcontext, fun hcarried => ?_⟩
  have hbeside : titledView.ExtraBeside :=
    CatalogView.extraBeside_ofCatalog (Catalog.read_extraBeside read_titledDocument)
      ofCatalog_titled
  rw [CatalogView.carriedIn_iff hbeside (get?_groups_assemble hbeside rfl hcontext)] at hcarried
  have hitem := (hcarried _ List.mem_cons_self).2 _ List.mem_cons_self
  have htitle : some (Json.string "plain")
      = some (.string "<span data-message=\"a-title\"></span>") :=
    hitem ("title", .string "<span data-message=\"a-title\"></span>")
      (by simp [UnitView.computed, UnitView.reserved, UnitView.exposed])
  exact absurd (Json.string.inj (Option.some.inj htitle)) (by decide)

end RenderContext

end HubRules
