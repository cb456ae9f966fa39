import HubRules.Proofs.Placeholder.Completion

/-!
# Resolved configurations

A configuration is resolved if none of its URLs holds a placeholder; then resolving it, however,
changes nothing (`resolveUrls_eq_self_iff`). What resolving makes of a configuration is resolved
exactly if no placeholder is completed in its URLs (`resolveUrls_isResolved_iff`).
-/

namespace HubRules

open Text

/-! ## Values under a key -/

namespace Placeholder

variable {mode : Placeholder} {key : String}

theorem resolveValue_url (hkey : Configuration.isUrlKey key) (text : String) :
    mode.resolveValue key (.string text) = .string (String.ofList (mode.apply text.toList)) := by
  simp [resolveValue, hkey]

theorem resolveValue_of_not_url (hkey : Configuration.isUrlKey key = false) (value : Json) :
    mode.resolveValue key value = value := by
  simp [resolveValue, hkey]

theorem resolveValue_of_not_text {value : Json} (hvalue : value.string? = none) :
    mode.resolveValue key value = value := by
  cases hkey : Configuration.isUrlKey key with
  | false => exact resolveValue_of_not_url hkey value
  | true => cases value <;> simp_all [resolveValue, Json.string?]

theorem resolveValue_eq_self {value : Json}
    (h : ∀ text, value = .string text → Configuration.isUrlKey key → ¬mark <:+: text.toList) :
    mode.resolveValue key value = value := by
  cases hkey : Configuration.isUrlKey key with
  | false => exact resolveValue_of_not_url hkey value
  | true =>
    cases value with
    | string text =>
      rw [resolveValue_url hkey, apply_of_not_mark mode (h text rfl hkey), String.ofList_toList]
    | _ => exact resolveValue_of_not_text rfl

end Placeholder

/-! ## Configurations -/

namespace Configuration

/-- Whether no URL of the configuration holds a placeholder. -/
def IsResolved (config : Configuration) : Prop :=
  ∀ key text, (key, .string text) ∈ config.members → isUrlKey key →
    ¬Placeholder.mark <:+: text.toList

theorem mem_resolveUrls {config : Configuration} {mode : Placeholder} {key text : String}
    (hkey : isUrlKey key) : (key, .string text) ∈ (config.resolveUrls mode).members ↔
      ∃ old, (key, .string old) ∈ config.members
        ∧ text = String.ofList (mode.apply old.toList) := by
  simp only [resolveUrls, List.mem_map, Prod.mk.injEq, Prod.exists]
  constructor
  · rintro ⟨_, old, hmem, rfl, heq⟩
    cases old with
    | string old =>
      rw [Placeholder.resolveValue_url hkey] at heq
      exact ⟨old, hmem, (Json.string.inj heq).symm⟩
    | _ =>
      rw [Placeholder.resolveValue_of_not_text rfl] at heq
      cases heq
  · rintro ⟨old, hmem, rfl⟩
    exact ⟨key, _, hmem, rfl, Placeholder.resolveValue_url hkey old⟩

theorem resolveUrls_eq_self {config : Configuration} {mode : Placeholder} :
    config.resolveUrls mode = config ↔
      ∀ member ∈ config.members, mode.resolveValue member.1 member.2 = member.2 := by
  obtain ⟨members⟩ := config
  rw [resolveUrls, Configuration.mk.injEq]
  constructor
  · intro h member hmem
    have hmap := List.map_inj_left.1 (h.trans (List.map_id members).symm) member hmem
    exact congrArg Prod.snd hmap
  · intro h
    refine (List.map_congr_left fun member hmem => ?_).trans (List.map_id members)
    exact Prod.ext rfl (h member hmem)

/-- Resolving changes nothing, whatever stands for the placeholder, exactly in a configuration
without placeholders in its URLs. -/
theorem resolveUrls_eq_self_iff {config : Configuration} :
    (∀ mode, config.resolveUrls mode = config) ↔ config.IsResolved := by
  constructor
  · intro h key text hmem hkey
    have hvalue := resolveUrls_eq_self.1 (h .remove) _ hmem
    rw [Placeholder.resolveValue_url hkey, Json.string.injEq, ← String.toList_inj,
      String.toList_ofList] at hvalue
    exact Placeholder.not_mark_of_remove_apply hvalue
  · intro h mode
    rw [resolveUrls_eq_self]
    rintro ⟨key, value⟩ hmem
    refine Placeholder.resolveValue_eq_self ?_
    rintro text rfl hkey
    exact h key text hmem hkey

variable {mode : Placeholder}

theorem isResolved_iff_not_completes (hplain : '$' ∉ mode.replacement) {config : Configuration} :
    (config.resolveUrls mode).IsResolved ↔
      ∀ key text, (key, .string text) ∈ config.members → isUrlKey key →
        ¬mode.Completes text.toList := by
  constructor
  · intro h key text hmem hkey hcompletes
    refine h key _ ((mem_resolveUrls hkey).2 ⟨text, hmem, rfl⟩) hkey ?_
    rw [String.toList_ofList]
    exact (Placeholder.mark_isInfix_apply_iff hplain).2 hcompletes
  · intro h key text hmem hkey hmark
    obtain ⟨old, hold, rfl⟩ := (mem_resolveUrls hkey).1 hmem
    rw [String.toList_ofList] at hmark
    exact h key old hold hkey ((Placeholder.mark_isInfix_apply_iff hplain).1 hmark)

/-- Whatever stands for the placeholder and cannot complete one resolves every configuration;
anything else leaves a placeholder in some configuration. -/
theorem forall_isResolved_iff (hplain : '$' ∉ mode.replacement) :
    (∀ config : Configuration, (config.resolveUrls mode).IsResolved) ↔ ¬mode.MayComplete := by
  constructor
  · intro h hmay
    obtain ⟨text, htext⟩ := Placeholder.exists_completes hmay
    let config : Configuration := ⟨[("_url", .string (String.ofList text))]⟩
    refine (isResolved_iff_not_completes hplain).1 (h config) "_url" _ List.mem_cons_self
      (by decide) ?_
    rwa [String.toList_ofList]
  · intro h config
    rw [isResolved_iff_not_completes hplain]
    exact fun _ _ _ _ hcompletes => h (Placeholder.mayComplete_of_completes hcompletes)

/-- What is left of placeholders, if `$` is not part of what stands for them. No placeholder
survives in the URLs of a configuration exactly if none of them has one completed; then, and only
then, resolving again changes nothing. It is so in every configuration exactly if what stands for
the placeholder cannot complete one. -/
theorem resolveUrls_isResolved_iff (mode : Placeholder) (hplain : '$' ∉ mode.replacement) :
    (∀ config : Configuration,
      ((config.resolveUrls mode).IsResolved ↔
        ∀ key text, (key, .string text) ∈ config.members → isUrlKey key →
          ¬mode.Completes text.toList)
      ∧ ((∀ again, (config.resolveUrls mode).resolveUrls again = config.resolveUrls mode) ↔
        (config.resolveUrls mode).IsResolved))
    ∧ ((∀ config : Configuration, (config.resolveUrls mode).IsResolved) ↔ ¬mode.MayComplete) :=
  ⟨fun _ => ⟨isResolved_iff_not_completes hplain, resolveUrls_eq_self_iff⟩,
    forall_isResolved_iff hplain⟩

/-- A URL in which a placeholder stands inside another one. -/
def nestedUrl : Configuration := ⟨[("x_url", .string "$organi$organizationzation")]⟩

theorem resolveUrls_isResolved_iff_nested :
    '$' ∉ Placeholder.remove.replacement ∧ ¬(nestedUrl.resolveUrls .remove).IsResolved
      ∧ '$' ∉ Placeholder.combined.replacement ∧ (nestedUrl.resolveUrls .combined).IsResolved := by
  have hremove : '$' ∉ Placeholder.remove.replacement := by decide
  have hcombined : '$' ∉ Placeholder.combined.replacement := by decide
  have hcompletes : Placeholder.remove.Completes "$organi$organizationzation".toList :=
    ⟨[], 7, false, "zation".toList, by decide, by decide, by decide, by decide⟩
  refine ⟨hremove, fun h => ?_, hcombined, ?_⟩
  · exact ((resolveUrls_isResolved_iff .remove hremove).1 nestedUrl).1.1 h "x_url" _
      List.mem_cons_self (by decide) hcompletes
  · exact (resolveUrls_isResolved_iff .combined hcombined).2.2 (by decide) nestedUrl

/-- Removing the inner placeholder leaves the outer one, which goes when it is resolved again. -/
theorem resolveUrls_remove_leaves_mark :
    '$' ∉ Placeholder.remove.replacement
      ∧ nestedUrl.resolveUrls .remove = ⟨[("x_url", .string "$organization")]⟩
      ∧ Placeholder.mark <:+: "$organization".toList
      ∧ (nestedUrl.resolveUrls .remove).resolveUrls .remove = ⟨[("x_url", .string "")]⟩ :=
  ⟨by decide, rfl, by decide, rfl⟩

end Configuration

end HubRules
