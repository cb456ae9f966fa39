import HubRules.Configuration.Routing
import HubRules.Proofs.Outcome

/-!
# Names of members

The objects of a document that was read have every name once, at any depth
(`parse_hasUniqueNames`): a member that is named again takes the place of the one before. It is
so for a configuration that was read (`read_hasUniqueNames`), and stays so when keys are set.
Where members of different names are set in an object, each has its new value
(`Members.get?_setAll`).
-/

namespace HubRules

open Outcome

namespace Members

variable {members : Members} {name : String} {value : Json}

theorem mem_of_get? (h : members.get? name = some value) : (name, value) ∈ members := by
  obtain ⟨before, behind, heq, -⟩ := List.lookup_eq_some_iff.1 h
  rw [heq]
  exact List.mem_append_right _ List.mem_cons_self

theorem nodup_names_set (h : members.names.Nodup) : (members.set name value).names.Nodup := by
  rw [names_set]
  split
  · exact h
  · next hnew =>
    rw [List.nodup_append]
    refine ⟨h, List.pairwise_singleton _ _, fun other hother added hadded heq => ?_⟩
    rw [List.mem_singleton.1 hadded] at heq
    exact hnew (heq ▸ hother)

theorem mem_set {member : String × Json} (h : member ∈ members.set name value) :
    member ∈ members ∨ member.2 = value := by
  induction members with
  | nil => exact .inr (by rw [List.mem_singleton.1 h])
  | cons first rest ih =>
    obtain ⟨key, old⟩ := first
    unfold set at h
    split at h
    · rcases List.mem_cons.1 h with rfl | h
      · exact .inr rfl
      · exact .inl (List.mem_cons_of_mem _ h)
    · rcases List.mem_cons.1 h with rfl | h
      · exact .inl List.mem_cons_self
      · exact (ih h).imp_left (List.mem_cons_of_mem _)

theorem get?_cons (first : String × Json) :
    get? (first :: members) name = if name = first.1 then some first.2 else members.get? name := by
  unfold get?
  rw [List.lookup_cons]
  by_cases h : name = first.1
  · rw [if_pos h, beq_iff_eq.2 h]
  · rw [if_neg h, beq_eq_false_iff_ne.2 h]

theorem get?_eq_none_iff : members.get? name = none ↔ name ∉ members.names := by
  unfold get? names
  simp only [List.lookup_eq_none_iff, List.mem_map, bne_iff_ne]
  constructor
  · rintro h ⟨member, hmember, rfl⟩
    exact h member hmember rfl
  · exact fun h member hmember heq => h ⟨member, hmember, heq.symm⟩

theorem get?_setAll_of_notMem {added : Members} (h : name ∉ added.names) :
    (members.setAll added).get? name = members.get? name := by
  induction added generalizing members with
  | nil => rfl
  | cons first rest ih =>
    have hfirst : name ≠ first.1 := List.ne_of_not_mem_cons h
    calc ((members.set first.1 first.2).setAll rest).get? name
        = (members.set first.1 first.2).get? name := ih (List.not_mem_of_not_mem_cons h)
      _ = members.get? name := by rw [get?_set, if_neg hfirst]

theorem get?_setAll {added : Members} (h : added.names.Nodup) :
    (members.setAll added).get? name = (added.get? name).or (members.get? name) := by
  induction added generalizing members with
  | nil => rfl
  | cons first rest ih =>
    obtain ⟨hfirst, hrest⟩ := List.nodup_cons.1 h
    show ((members.set first.1 first.2).setAll rest).get? name = _
    rw [get?_cons]
    by_cases hname : name = first.1
    · rw [if_pos hname, hname, get?_setAll_of_notMem hfirst, get?_set, if_pos rfl]
      rfl
    · rw [if_neg hname, ih hrest, get?_set, if_neg hname]

end Members

namespace Json

/-- Every object in a value has each of its names once. -/
inductive HasUniqueNames : Json → Prop where
  | null : HasUniqueNames .null
  | bool (value : Bool) : HasUniqueNames (.bool value)
  | number (value : Number) : HasUniqueNames (.number value)
  | string (text : String) : HasUniqueNames (.string text)
  | array {items : List Json} (h : ∀ item ∈ items, HasUniqueNames item) :
    HasUniqueNames (.array items)
  | object {members : Members} (hnames : members.names.Nodup)
      (h : ∀ member ∈ members, HasUniqueNames member.2) : HasUniqueNames (.object members)

theorem HasUniqueNames.set {members : Members} {name : String} {value : Json}
    (h : HasUniqueNames (.object members)) (hvalue : value.HasUniqueNames) :
    HasUniqueNames (.object (members.set name value)) := by
  cases h with
  | object hnames hmembers =>
    refine .object (Members.nodup_names_set hnames) fun member hmember => ?_
    rcases Members.mem_set hmember with hold | hnew
    · exact hmembers member hold
    · rw [hnew]
      exact hvalue

theorem HasUniqueNames.get? {members : Members} {name : String} {value : Json}
    (h : HasUniqueNames (.object members)) (hget : members.get? name = some value) :
    value.HasUniqueNames := by
  cases h with
  | object _ hmembers => exact hmembers _ (Members.mem_of_get? hget)

namespace Reader

theorem items_spec {α : Type} {P : α → Prop} {read : Reader → Except Fault (α × Reader)}
    (hread : ∀ r found, read r = .ok found → P found.1) {fuel : Nat} {first : Bool}
    {r : Reader} {found : List α × Reader} (h : items read fuel first r = .ok found) :
    ∀ item ∈ found.1, P item := by
  induction fuel generalizing first r found with
  | zero => cases h
  | succ fuel ih =>
    unfold items at h
    obtain ⟨⟨item, r'⟩, -, h⟩ := bind_eq_ok_iff.1 h
    cases item with
    | none =>
      obtain rfl : ([], r') = found := Except.ok.inj h
      simp
    | some next =>
      obtain ⟨⟨value, behind⟩, hvalue, h⟩ := bind_eq_ok_iff.1 h
      obtain ⟨⟨values, last⟩, hvalues, h⟩ := bind_eq_ok_iff.1 h
      obtain rfl : (value :: values, last) = found := Except.ok.inj h
      exact List.forall_mem_cons.2 ⟨hread _ _ hvalue, ih hvalues⟩

theorem members_spec {σ : Type} {P : σ → Prop}
    {step : σ → String → Reader → Except Fault (σ × Reader)}
    (hstep : ∀ state key r found, P state → step state key r = .ok found → P found.1)
    {fuel : Nat} {first : Bool} {state : σ} {r : Reader} {found : σ × Reader} (hstate : P state)
    (h : members step fuel first state r = .ok found) : P found.1 := by
  induction fuel generalizing first state r found with
  | zero => cases h
  | succ fuel ih =>
    unfold members at h
    obtain ⟨⟨key, r'⟩, -, h⟩ := bind_eq_ok_iff.1 h
    cases key with
    | none =>
      obtain rfl : (state, r') = found := Except.ok.inj h
      exact hstate
    | some key =>
      obtain ⟨⟨state', behind⟩, hnext, h⟩ := bind_eq_ok_iff.1 h
      exact ih (hstep _ _ _ _ hstate hnext) h

theorem valueOver_hasUniqueNames {inner : Option (Reader → Except Fault (Json × Reader))}
    (hinner : ∀ read ∈ inner, ∀ r found, read r = .ok found → found.1.HasUniqueNames)
    {r : Reader} {found : Json × Reader} (h : valueOver inner r = .ok found) :
    found.1.HasUniqueNames := by
  unfold valueOver at h
  simp only at h
  split at h
  · cases h
  · obtain ⟨_, -, rfl⟩ := exists_of_map_eq_ok h
    exact .null
  · obtain ⟨_, -, rfl⟩ := exists_of_map_eq_ok h
    exact .bool _
  · obtain ⟨_, -, rfl⟩ := exists_of_map_eq_ok h
    exact .bool _
  · obtain ⟨_, -, rfl⟩ := exists_of_map_eq_ok h
    exact .string _
  · obtain ⟨_, -, rfl⟩ := exists_of_map_eq_ok h
    exact .number _
  · split at h
    · cases h
    · next read =>
      obtain ⟨_, hitems, rfl⟩ := exists_of_map_eq_ok h
      exact .array (items_spec (hinner read rfl) hitems)
  · split at h
    · cases h
    · next read =>
      obtain ⟨_, hmembers, rfl⟩ := exists_of_map_eq_ok h
      -- an object stays one with unique names as its members are set one by one
      refine members_spec (P := fun members => HasUniqueNames (.object members)) ?_
        (.object (by simp [Members.names]) (by simp)) hmembers
      intro state key r found hstate hstep
      obtain ⟨r', -, hstep⟩ := bind_eq_ok_iff.1 hstep
      obtain ⟨⟨value, behind⟩, hvalue, hstep⟩ := bind_eq_ok_iff.1 hstep
      obtain rfl := Except.ok.inj hstep
      exact hstate.set (hinner read rfl _ _ hvalue)
  · split at h
    · obtain ⟨_, -, rfl⟩ := exists_of_map_eq_ok h
      exact .number _
    · cases h

theorem value_hasUniqueNames {depth : Nat} {r : Reader} {found : Json × Reader}
    (h : value depth r = .ok found) : found.1.HasUniqueNames := by
  induction depth generalizing r found with
  | zero => exact valueOver_hasUniqueNames (by simp) h
  | succ depth ih =>
    refine valueOver_hasUniqueNames (fun read hread r found h => ?_) h
    obtain rfl := Option.mem_some.1 hread
    exact ih h

end Reader

theorem parse_hasUniqueNames {text : Text} {value : Json} (h : parse text = .ok value) :
    value.HasUniqueNames := by
  unfold parse Reader.whole at h
  obtain ⟨⟨found, r⟩, hvalue, h⟩ := bind_eq_ok_iff.1 h
  obtain ⟨_, -, h⟩ := bind_eq_ok_iff.1 h
  obtain rfl : found = value := Except.ok.inj h
  exact Reader.value_hasUniqueNames hvalue

end Json

namespace Configuration

variable {config : Configuration}

/-- A configuration in which every object has each of its names once. -/
def HasUniqueNames (config : Configuration) : Prop := config.toJson.HasUniqueNames

theorem read_hasUniqueNames {text : Text} (h : read text = .ok config) :
    config.HasUniqueNames := by
  unfold read at h
  split at h
  · cases h
  · next members hparse =>
    obtain rfl := Except.ok.inj h
    exact Json.parse_hasUniqueNames hparse
  · cases h

theorem HasUniqueNames.set {key : String} {value : Json} (h : config.HasUniqueNames)
    (hvalue : value.HasUniqueNames) : (config.set key value).HasUniqueNames :=
  Json.HasUniqueNames.set h hvalue

theorem HasUniqueNames.nodup_entries (h : config.HasUniqueNames) {group : RoutingGroup}
    {table : RoutingTable} (htable : config.routingTable group = .ok table) :
    (table.entries.map (·.1)).Nodup := by
  unfold routingTable at htable
  split at htable
  · obtain rfl := Except.ok.inj htable
    exact List.nodup_nil
  · obtain rfl := Except.ok.inj htable
    exact List.nodup_nil
  · next groups hgroups =>
    have hgroups : Json.HasUniqueNames (.object groups) := Json.HasUniqueNames.get? h hgroups
    split at htable
    · obtain rfl := Except.ok.inj htable
      exact List.nodup_nil
    · next entries hentries =>
      cases hgroups.get? hentries with
      | object hnames _ =>
        obtain ⟨found, hread, rfl⟩ := exists_of_map_eq_ok htable
        have hsame : found.map (·.1) = entries.map (·.1) := by
          refine map_eq_map_of_mapM (fun member result hresult => ?_) hread
          dsimp only at hresult
          split at hresult
          · obtain rfl := Except.ok.inj hresult
            rfl
          · cases hresult
        rw [hsame]
        exact hnames
    · cases htable
  · cases htable

end Configuration

end HubRules
