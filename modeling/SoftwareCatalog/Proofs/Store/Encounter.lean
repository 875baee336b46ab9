import SoftwareCatalog.Proofs.Component.Reconcile
import SoftwareCatalog.Proofs.Store.Effect

namespace SoftwareCatalog.Store

variable {s t : Store} {key : Nat} {c old : Component} {survivor : Survivor}

/-- What a component and the record that it meets make of each other. -/
def verdict (s : Store) (old c : Component) : Reconciled :=
  reconcile s.settings.add.preferLocal old c

/-- A component meets the record that describes the same software, and one of them stays. -/
structure Meets (s : Store) (c : Component) (key : Nat) (old : Component) (survivor : Survivor) :
    Prop where
  existing : s.existing? c = some key
  found : s.find? key = some old
  survivor : (s.verdict old c).survivor = survivor

/-- All that can come of a component that describes software. -/
inductive Encounter (s : Store) (c : Component) : Store → Prop
  | inserted (h : (s.existing? c).bind s.find? = none) : Encounter s c (s.insert c)
  | merged {key : Nat} {old : Component} (h : s.Meets c key old .stored) :
    Encounter s c (s.update key fun _ => (s.verdict old c).stored)
  | replaced {key : Nat} {old : Component} (h : s.Meets c key old .incoming) :
    Encounter s c (((s.modify key fun e => e.replace (s.verdict old c).stored).removeKey key).insert
      (s.verdict old c).incoming)

theorem encounter_addRecord (s : Store) (c : Component) : Encounter s c (s.addRecord c) := by
  unfold addRecord
  cases hkey : s.existing? c with
  | none => exact .inserted (by rw [hkey, Option.bind_none])
  | some key =>
    simp only
    cases hold : s.find? key with
    | none => exact .inserted (by rw [hkey, Option.bind_some, hold])
    | some old =>
      simp only
      cases hsurvivor : (reconcile s.settings.add.preferLocal old c).survivor with
      | stored => exact .merged ⟨hkey, hold, hsurvivor⟩
      | incoming => exact .replaced ⟨hkey, hold, hsurvivor⟩

theorem Meets.unique {key' : Nat} {old' : Component} {survivor' : Survivor}
    (h : s.Meets c key old survivor) (k : s.Meets c key' old' survivor') :
    key' = key ∧ old' = old ∧ survivor' = survivor := by
  obtain rfl := Option.some.inj (h.existing.symm.trans k.existing)
  obtain rfl := Option.some.inj (h.found.symm.trans k.found)
  exact ⟨rfl, rfl, k.survivor.symm.trans h.survivor⟩

theorem Meets.ne {survivor' : Survivor} (h : s.Meets c key old survivor)
    (hne : survivor' ≠ survivor) (key' : Nat) (old' : Component) :
    ¬ s.Meets c key' old' survivor' :=
  fun k => hne (h.unique k).2.2

theorem Meets.existing_bind (h : s.Meets c key old survivor) :
    (s.existing? c).bind s.find? = some old := by
  rw [h.existing, Option.bind_some, h.found]

theorem not_meets_of_none (h : (s.existing? c).bind s.find? = none) (key : Nat) (old : Component)
    (survivor : Survivor) : ¬ s.Meets c key old survivor := by
  intro hmeets
  rw [hmeets.existing_bind] at h
  cases h

/-- Pooled texts have no part in what a component meets. -/
theorem meets_pool_iff {pool : Pool} :
    Meets { s with pool } c key old survivor ↔ s.Meets c key old survivor :=
  ⟨fun h => ⟨h.existing, h.found, h.survivor⟩, fun h => ⟨h.existing, h.found, h.survivor⟩⟩

end SoftwareCatalog.Store
