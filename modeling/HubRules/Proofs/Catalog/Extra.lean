import HubRules.Catalog
import HubRules.Proofs.Json.UniqueNames

/-!
# Further fields of a catalog

What a catalog document gives beside the fields that have a meaning is kept under names of its
own: no further field of a catalog that was read, of one of its groups or of one of its units has
the name of a field that is read there, and none stands twice (`read_extraBeside`).
-/

namespace HubRules

open Outcome
open Json (Reader Fault)

/-- Members that stand beside fields of given names: each has a name of its own. -/
structure Members.Beside (members : Members) (fields : List String) : Prop where
  nodup : members.names.Nodup
  notMem : ∀ name ∈ fields, name ∉ members.names

def VisualizationUnit.fieldNames : List String :=
  ["id", "url", "download", "icon", "index", "nginx", "proxied", "repo", "skip_test"]

def VisualizationGroup.fieldNames : List String := ["id", "items"]

/-- A group whose further fields, and those of its units, stand beside the ones that are read. -/
structure VisualizationGroup.ExtraBeside (group : VisualizationGroup) : Prop where
  extra : group.extra.Beside VisualizationGroup.fieldNames
  items : ∀ unit ∈ group.items, unit.extra.Beside VisualizationUnit.fieldNames

/-- A catalog whose further fields at each level stand beside the ones that are read there. -/
structure Catalog.ExtraBeside (catalog : Catalog) : Prop where
  extra : catalog.extra.Beside ["groups"]
  groups : ∀ group ∈ catalog.groups, group.ExtraBeside

namespace Members

theorem nil_beside (fields : List String) : Beside [] fields where
  nodup := List.nodup_nil
  notMem _ _ := List.not_mem_nil

theorem Beside.set {members : Members} {fields : List String} {name : String}
    (h : members.Beside fields) (hname : name ∉ fields) (value : Json) :
    (members.set name value).Beside fields where
  nodup := nodup_names_set h.nodup
  notMem field hfield := by
    have hne : field ≠ name := fun heq => hname (heq ▸ hfield)
    rw [← get?_eq_none_iff, get?_set, if_neg hne]
    exact get?_eq_none_iff.2 (h.notMem field hfield)

theorem Beside.get?_eq_none {members : Members} {fields : List String} (h : members.Beside fields)
    {name : String} (hname : name ∈ fields) : members.get? name = none :=
  get?_eq_none_iff.2 (h.notMem name hname)

end Members

namespace Json.Reader

theorem object_spec {σ : Type} {P : σ → Prop} {expected : String}
    {step : σ → String → Reader → Except Fault (σ × Reader)} {init : σ} {r : Reader}
    {found : σ × Reader}
    (hstep : ∀ state key r found, P state → step state key r = .ok found → P found.1)
    (hinit : P init) (h : object expected step init r = .ok found) : P found.1 := by
  unfold object at h
  dsimp only at h
  split at h
  · cases h
  · exact members_spec hstep hinit h
  · cases h

theorem list_spec {α : Type} {P : α → Prop} {read : Reader → Except Fault (α × Reader)}
    {r : Reader} {found : List α × Reader}
    (hread : ∀ r found, read r = .ok found → P found.1) (h : list read r = .ok found) :
    ∀ item ∈ found.1, P item := by
  unfold list at h
  dsimp only at h
  split at h
  · cases h
  · exact items_spec hread h
  · cases h

end Json.Reader

namespace Catalog

theorem exists_of_once {α : Type} {field : String} {old : Option α}
    {read : Reader → Except Fault (α × Reader)} {r : Reader} {found : Option α × Reader}
    (h : once field old read r = .ok found) :
    ∃ value r', found.1 = some value ∧ read r' = .ok (value, found.2) := by
  unfold once at h
  dsimp only at h
  split at h
  · cases h
  obtain ⟨⟨value, behind⟩, hread, h⟩ := bind_eq_ok_iff.1 h
  obtain ⟨r', -, hread⟩ := bind_eq_ok_iff.1 hread
  rw [← Except.ok.inj h]
  exact ⟨value, r', rfl, hread⟩

theorem keep_beside {depth : Nat} {extra : Members} {fields : List String} {name : String}
    {r : Reader} {found : Members × Reader} (hextra : extra.Beside fields) (hname : name ∉ fields)
    (h : keep depth extra name r = .ok found) : found.1.Beside fields := by
  unfold keep at h
  obtain ⟨⟨value, r'⟩, -, h⟩ := bind_eq_ok_iff.1 h
  rw [← Except.ok.inj h]
  exact hextra.set hname value

theorem unitFields_take_beside {fields : UnitFields} {name : String} {r : Reader}
    {found : UnitFields × Reader} (hfields : fields.extra.Beside VisualizationUnit.fieldNames)
    (h : fields.take name r = .ok found) :
    found.1.extra.Beside VisualizationUnit.fieldNames := by
  unfold UnitFields.take at h
  split at h
  case h_10 =>
    obtain ⟨⟨extra, r'⟩, hkeep, h⟩ := bind_eq_ok_iff.1 h
    rw [← Except.ok.inj h]
    refine keep_beside hfields ?_ hkeep
    simp_all [VisualizationUnit.fieldNames]
  -- a field with a meaning of its own leaves the further ones as they are
  all_goals
    obtain ⟨_, -, h⟩ := bind_eq_ok_iff.1 h
    rw [← Except.ok.inj h]
    exact hfields

theorem readUnit_beside {r : Reader} {found : VisualizationUnit × Reader}
    (h : readUnit r = .ok found) : found.1.extra.Beside VisualizationUnit.fieldNames := by
  unfold readUnit at h
  obtain ⟨⟨fields, r'⟩, hfields, h⟩ := bind_eq_ok_iff.1 h
  have hbeside := Reader.object_spec
    (P := fun fields => fields.extra.Beside VisualizationUnit.fieldNames)
    (fun _ _ _ _ => unitFields_take_beside) (Members.nil_beside _) hfields
  dsimp only at h
  split at h
  · cases h
  · rw [← Except.ok.inj h]
    exact hbeside

/-- What is known of a group while its fields are read. -/
structure GroupFields.ExtraBeside (fields : GroupFields) : Prop where
  extra : fields.extra.Beside VisualizationGroup.fieldNames
  items : ∀ unit ∈ fields.items.getD [], unit.extra.Beside VisualizationUnit.fieldNames

theorem GroupFields.ExtraBeside.take {fields : GroupFields} {name : String} {r : Reader}
    {found : GroupFields × Reader} (hfields : fields.ExtraBeside)
    (h : fields.take name r = .ok found) : found.1.ExtraBeside := by
  unfold GroupFields.take at h
  split at h
  · obtain ⟨_, -, h⟩ := bind_eq_ok_iff.1 h
    rw [← Except.ok.inj h]
    exact ⟨hfields.extra, hfields.items⟩
  · obtain ⟨⟨value, behind⟩, honce, h⟩ := bind_eq_ok_iff.1 h
    obtain ⟨units, _, rfl, hread⟩ := exists_of_once honce
    rw [← Except.ok.inj h]
    exact ⟨hfields.extra, Reader.list_spec (fun _ _ => readUnit_beside) hread⟩
  · obtain ⟨⟨extra, r'⟩, hkeep, h⟩ := bind_eq_ok_iff.1 h
    rw [← Except.ok.inj h]
    refine ⟨keep_beside hfields.extra ?_ hkeep, hfields.items⟩
    simp_all [VisualizationGroup.fieldNames]

theorem readGroup_extraBeside {r : Reader} {found : VisualizationGroup × Reader}
    (h : readGroup r = .ok found) : found.1.ExtraBeside := by
  unfold readGroup at h
  obtain ⟨⟨fields, r'⟩, hfields, h⟩ := bind_eq_ok_iff.1 h
  have hbeside : fields.ExtraBeside :=
    Reader.object_spec (fun _ _ _ _ => GroupFields.ExtraBeside.take)
      ⟨Members.nil_beside _, by simp⟩ hfields
  dsimp only at h
  split at h
  · cases h
  · rw [← Except.ok.inj h]
    exact ⟨hbeside.extra, hbeside.items⟩

/-- What is known of a catalog while its fields are read. -/
structure Fields.ExtraBeside (fields : Fields) : Prop where
  extra : fields.extra.Beside ["groups"]
  groups : ∀ group ∈ fields.groups.getD [], group.ExtraBeside

theorem Fields.ExtraBeside.take {fields : Fields} {name : String} {r : Reader}
    {found : Fields × Reader} (hfields : fields.ExtraBeside) (h : fields.take name r = .ok found) :
    found.1.ExtraBeside := by
  unfold Fields.take at h
  split at h
  · obtain ⟨⟨value, behind⟩, honce, h⟩ := bind_eq_ok_iff.1 h
    obtain ⟨groups, _, rfl, hread⟩ := exists_of_once honce
    rw [← Except.ok.inj h]
    exact ⟨hfields.extra, Reader.list_spec (fun _ _ => readGroup_extraBeside) hread⟩
  · obtain ⟨⟨extra, r'⟩, hkeep, h⟩ := bind_eq_ok_iff.1 h
    rw [← Except.ok.inj h]
    refine ⟨keep_beside hfields.extra ?_ hkeep, hfields.groups⟩
    simp_all

theorem read_extraBeside {text : Text} {catalog : Catalog} (h : read text = .ok catalog) :
    catalog.ExtraBeside := by
  unfold read Reader.whole at h
  obtain ⟨⟨found, r⟩, hread, h⟩ := bind_eq_ok_iff.1 h
  obtain ⟨⟨fields, r'⟩, hfields, hread⟩ := bind_eq_ok_iff.1 hread
  obtain ⟨_, -, h⟩ := bind_eq_ok_iff.1 h
  have hbeside : fields.ExtraBeside :=
    Reader.object_spec (fun _ _ _ _ => Fields.ExtraBeside.take)
      ⟨Members.nil_beside _, by simp⟩ hfields
  rw [← Except.ok.inj h, ← (Prod.mk.inj (Except.ok.inj hread)).1]
  exact ⟨hbeside.extra, hbeside.groups⟩

end Catalog

end HubRules
