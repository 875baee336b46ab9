import Mathlib.Tactic.ByContra
import SoftwareCatalog.Proofs.Component.Reconcile

namespace SoftwareCatalog

namespace Component

variable {flags : SubsumeFlags} {c d : Component}

/-- An addon names the ID of a component among those that it extends. -/
def Extends (addon c : Component) : Prop := ∃ x ∈ addon.extendedIds, c.id = some x

theorem extends_congr {a : Component} (h : c.id = d.id) : a.Extends c ↔ a.Extends d := by
  unfold Extends
  rw [h]

/-- Where a component comes to be described as another one: if it was an addon it still is, and
extends at least what it extended. -/
def Upholds (old new : Component) : Prop :=
  old.kind = .addon → new.kind = .addon ∧ old.extendedIds ⊆ new.extendedIds

theorem Upholds.refl (c : Component) : c.Upholds c := fun h => ⟨h, List.Subset.refl _⟩

theorem Upholds.of_extends {old new : Component} (h : old.Upholds new) (hkind : old.kind = .addon)
    (hextends : old.Extends d) : new.kind = .addon ∧ new.Extends d := by
  obtain ⟨hnew, hsub⟩ := h hkind
  obtain ⟨x, hx, hid⟩ := hextends
  exact ⟨hnew, x, hsub hx, hid⟩

theorem kind_subsume_of_addon (hkeeps : flags.has .kind = true → flags.keepsExisting = true)
    (h : c.kind = .addon) : (c.subsume flags d).kind = .addon := by
  have hkind : (c.subsume flags d).kind =
      if flags.has .kind then mergeComponentKind flags c.kind d.kind else c.kind := rfl
  rw [hkind]
  split
  · rename_i hhas
    simp [mergeComponentKind, hkeeps hhas, h]
  · exact h

theorem subset_mergeList {as bs : List String} (hreplace : flags.has .replace = true →
    bs = [] ∨ as ⊆ bs) : as ⊆ mergeList flags as bs := by
  intro x hx
  unfold mergeList mergeEntries
  split
  · exact hx
  · rename_i hsome
    rw [mem_foldl_addNew]
    by_cases hflag : flags.has .replace = true
    · rcases hreplace hflag with rfl | hsub
      · exact absurd rfl hsome
      · exact .inr (hsub hx)
    · rw [if_neg hflag]
      exact .inl hx

theorem extendedIds_subsume (flags : SubsumeFlags) (c d : Component) :
    (c.subsume flags d).extendedIds =
      if flags.has .extendedIds then mergeList flags c.extendedIds d.extendedIds
      else c.extendedIds :=
  rfl

theorem upholds_subsume (hkeeps : flags.has .kind = true → flags.keepsExisting = true)
    (hreplace : flags.has .replace = true →
      d.extendedIds = [] ∨ c.extendedIds ⊆ d.extendedIds) : c.Upholds (c.subsume flags d) := by
  intro haddon
  refine ⟨kind_subsume_of_addon hkeeps haddon, ?_⟩
  rw [extendedIds_subsume]
  split
  · exact subset_mergeList hreplace
  · exact List.Subset.refl _

end Component

theorem keepsExisting_patchFlags (patch : Component) : (patchFlags patch).keepsExisting = true := by
  unfold patchFlags
  split <;> rfl

/-- A patch takes a stored addon away from what it extends: it says anew what the addon extends. -/
def Uproots (patch c : Component) : Prop :=
  c.kind = .addon ∧ patch.mergeKind = .replace ∧ patch.extendedIds ≠ [] ∧
    ¬ c.extendedIds ⊆ patch.extendedIds

/-- Any other patch leaves an addon one, and leaves what it extends. -/
theorem upholds_patch {patch c : Component} (h : ¬ Uproots patch c) :
    c.Upholds (c.subsume (patchFlags patch) patch) := by
  intro haddon
  refine Component.upholds_subsume (fun _ => keepsExisting_patchFlags patch) ?_ haddon
  intro hreplace
  by_cases hsome : patch.extendedIds = []
  · exact .inl hsome
  · right
    by_contra hless
    exact h ⟨haddon, (patchFlags_replace patch).1 hreplace, hsome, hless⟩

/-- A patch that says anew what a component extends. -/
def Redirects (patch : Component) : Prop := patch.mergeKind = .replace ∧ patch.extendedIds ≠ []

theorem extendedIds_patch (c patch : Component) :
    (c.subsume (patchFlags patch) patch).extendedIds =
      mergeList (patchFlags patch) c.extendedIds patch.extendedIds :=
  if_pos (patchFlags_has patch rfl (by decide))

/-- A component extends what it is redirected to. -/
theorem extends_redirected_iff {patch : Component} (h : Redirects patch) (c d : Component) :
    (c.subsume (patchFlags patch) patch).Extends d ↔ patch.Extends d := by
  have hmem (x : String) :
      x ∈ (c.subsume (patchFlags patch) patch).extendedIds ↔ x ∈ patch.extendedIds := by
    rw [extendedIds_patch]
    unfold mergeList mergeEntries
    rw [if_neg (by simpa using h.2), if_pos ((patchFlags_replace patch).2 h.1),
      mem_foldl_addNew]
    simp
  unfold Component.Extends
  simp only [hmem]

theorem extends_patched {patch c d : Component} (h : ¬ Redirects patch) (hextends : c.Extends d) :
    (c.subsume (patchFlags patch) patch).Extends d := by
  obtain ⟨x, hx, hid⟩ := hextends
  refine ⟨x, ?_, hid⟩
  rw [extendedIds_patch]
  refine Component.subset_mergeList ?_ hx
  intro hreplace
  by_contra hno
  exact h ⟨(patchFlags_replace patch).1 hreplace, fun hnone => hno (.inl hnone)⟩

theorem addons_foldl_applyPatch (patches : List Component) (c : Component) :
    (patches.foldl applyPatch c).addons = c.addons := by
  induction patches generalizing c with
  | nil => rfl
  | cons patch patches ih =>
    have hfirst : (applyPatch c patch).addons = c.addons := by
      unfold applyPatch
      split <;> rfl
    exact (ih _).trans hfirst

/-- A stored component that meets another one goes on as the addon that it was. -/
theorem upholds_reconcile_stored (preferLocal : Bool) (old c : Component) :
    old.Upholds (reconcile preferLocal old c).stored := by
  have hsalvage : old.Upholds (old.subsume salvage c) :=
    Component.upholds_subsume nofun nofun
  have htwoWay : old.Upholds (old.subsume twoWay c) :=
    Component.upholds_subsume (fun _ => rfl) nofun
  rcases reconcile_cases preferLocal old c with h | h | h | ⟨-, h⟩ <;> rw [h]
  · exact hsalvage
  · exact .refl old
  · exact htwoWay
  · exact htwoWay

theorem addons_reconcile_stored (preferLocal : Bool) (old c : Component) :
    (reconcile preferLocal old c).stored.addons = old.addons := by
  rcases reconcile_cases preferLocal old c with h | h | h | ⟨-, h⟩ <;> rw [h] <;> rfl

theorem addons_reconcile_incoming (preferLocal : Bool) (old c : Component) :
    (reconcile preferLocal old c).incoming.addons = c.addons := by
  rcases reconcile_cases preferLocal old c with h | h | h | ⟨-, h⟩ <;> rw [h] <;> rfl

/-- The first patch that matches voids the tokens that a component brings along. -/
theorem tokens_foldl_applyPatch (patches : List Component) (c : Component) :
    patches.foldl applyPatch c = c ∨ (patches.foldl applyPatch c).tokens = none := by
  induction patches generalizing c with
  | nil => exact .inl rfl
  | cons patch patches ih =>
    have hfirst : applyPatch c patch = c ∨ (applyPatch c patch).tokens = none := by
      unfold applyPatch
      split
      · exact .inr rfl
      · exact .inl rfl
    rw [List.foldl_cons]
    rcases ih (applyPatch c patch) with hrest | hvoid
    · rw [hrest]
      exact hfirst
    · exact .inr hvoid

/-- No tokens come to a stored component by what it meets. -/
theorem tokens_reconcile_stored {preferLocal : Bool} {old c : Component} (hold : old.tokens = none) :
    (reconcile preferLocal old c).stored.tokens = none := by
  rcases reconcile_cases preferLocal old c with h | h | h | ⟨-, h⟩ <;> rw [h]
  · rfl
  · exact hold
  · rfl
  · rfl

/-- What replaces a record has taken something over from it, and so has no tokens. -/
theorem tokens_reconcile_incoming {preferLocal : Bool} {old c : Component}
    (hgoes : (reconcile preferLocal old c).survivor = .incoming) :
    (reconcile preferLocal old c).incoming.tokens = none := by
  rcases reconcile_cases preferLocal old c with h | h | h | ⟨-, h⟩ <;> rw [h] at hgoes ⊢
  · cases hgoes
  · rfl
  · cases hgoes
  · rfl

end SoftwareCatalog
