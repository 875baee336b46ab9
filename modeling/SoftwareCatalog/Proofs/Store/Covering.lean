import SoftwareCatalog.Proofs.Store.Step

namespace SoftwareCatalog.Store

/-- A relation that holds of every change of a single record, whatever the record was made before
what leads to it is repaired, and of changes one after the other. -/
structure Covers (R : Store → Store → Prop) : Prop where
  refl (s : Store) : R s s
  trans {s t u : Store} (h : R s t) (k : R t u) : R s u
  pooled (s : Store) (pool : Pool) : R s { s with pool }
  patched (s : Store) (patches : TextMap (List Component)) : R s { s with patches }
  insert (s : Store) (c : Component) : R s (s.insert c)
  refresh {s : Store} {key : Nat} {f : Record → Record} {c : Component}
    (h : (s.modify key f).find? key = some c) (previous : String) :
    R s ((s.modify key f).refresh key previous)
  removeKey {s : Store} {key : Nat} {f : Record → Record} {c : Component}
    (h : (s.modify key f).find? key = some c) : R s ((s.modify key f).removeKey key)

namespace Covers

variable {R : Store → Store → Prop}

theorem update (h : Covers R) (s : Store) (key : Nat) (f : Component → Component) :
    R s (s.update key f) := by
  cases hc : s.find? key with
  | none =>
    rw [update_of_none hc]
    exact h.refl s
  | some c =>
    rw [update_eq hc]
    exact h.refresh (find?_replaced hc (f c)) c.uniqueId

theorem remove (h : Covers R) (s : Store) (key : Nat) : R s (s.removeKey key) := by
  cases hc : s.find? key with
  | none =>
    rw [removeKey_of_none hc]
    exact h.refl s
  | some c =>
    have hsame : s.modify key id = s := by simp [modify]
    have hfound : (s.modify key id).find? key = some c := by rw [hsame, hc]
    have hremoved := h.removeKey hfound
    rwa [hsame] at hremoved

theorem strip (h : Covers R) (filename : String) (r : Nat × Store) (key : Nat) :
    R r.2 (stripKey filename r key).2 := by
  unfold stripKey
  cases hc : r.2.find? key with
  | none => exact h.refl r.2
  | some c =>
    have hstripped := find?_withoutFile hc filename
    simp only
    split
    · exact h.removeKey hstripped
    · exact h.refresh hstripped _

theorem encounter (h : Covers R) {s t : Store} {c : Component} (k : Encounter s c t) : R s t := by
  cases k with
  | inserted _ => exact h.insert s c
  | merged _ => exact h.update s _ _
  | replaced k => exact h.trans (h.removeKey (find?_replaced k.found _)) (h.insert _ _)

theorem foldl {α : Type} (h : Covers R) {f : Store → α → Store} (hf : ∀ s a, R s (f s a))
    (as : List α) (s : Store) : R s (as.foldl f s) := by
  induction as generalizing s with
  | nil => exact h.refl s
  | cons a as ih => exact h.trans (hf s a) (ih _)

theorem addPatch (h : Covers R) (s : Store) (id : String) (patch : Component) :
    R s (s.addPatch id patch) := by
  unfold Store.addPatch
  exact h.trans (h.foldl (fun s key => h.update s key _) _ s) (h.patched _ _)

theorem add (h : Covers R) (s : Store) (c : Component) : R s (s.add c) := by
  unfold Store.add
  split
  · exact h.refl s
  · simp only
    split
    · exact h.trans (h.pooled s _) (h.addPatch _ _ c)
    · exact h.trans (h.pooled s _) (h.encounter (encounter_addRecord _ _))

end Covers

end SoftwareCatalog.Store
