import SoftwareCatalog.Proofs.Store.Lasting

namespace SoftwareCatalog

namespace Store

variable {s t : Store} {key : Nat} {c old : Component} {id : String} {adds more : List Addition}

/-- The patches for an ID that come in, in the order of their arrival. -/
def arrivals (id : String) (adds : List Addition) : List Component :=
  (adds.map (·.2)).filter fun c => c.mergeKind.isPatch && c.id == some id

theorem arrivals_append (id : String) (adds more : List Addition) :
    arrivals id (adds ++ more) = arrivals id adds ++ arrivals id more := by
  unfold arrivals
  rw [List.map_append, List.filter_append]

theorem arrivals_singleton (id : String) (s : Store) (c : Component) :
    arrivals id [(s, c)] = if c.mergeKind.isPatch ∧ c.id = some id then [c] else [] := by
  simp [arrivals, List.filter_singleton]

/-- What comes in waits behind the patches that wait already. -/
theorem patchesFor_add_eq_append (s : Store) (c : Component) (id : String) :
    (s.add c).patchesFor id = s.patchesFor id ++ arrivals id [(s, c)] := by
  rw [arrivals_singleton, patchesFor_add]
  split
  · rfl
  · rw [List.append_nil]

theorem mem_arrivals (h : c ∈ arrivals id adds) :
    (c.mergeKind = .append ∨ c.mergeKind = .replace) ∧ c.id = some id := by
  have hkept := (List.mem_filter.1 h).2
  rw [Bool.and_eq_true, beq_iff_eq] at hkept
  exact ⟨MergeKind.isPatch_iff.1 hkept.1, hkept.2⟩

/-- Under no ID an empty list is filed. -/
def Occupied (s : Store) : Prop := ∀ id, s.patches.get? id ≠ some []

theorem Occupied.get?_eq (h : s.Occupied) (id : String) :
    s.patches.get? id = if s.patchesFor id = [] then none else some (s.patchesFor id) := by
  have hsome := h id
  unfold patchesFor TextMap.getD
  cases hps : s.patches.get? id with
  | none => rfl
  | some ps =>
    rw [hps] at hsome
    have hne : ps ≠ [] := fun hnil => hsome (hnil ▸ rfl)
    simp [hne]

theorem Occupied.move (h : s.Occupied) (k : Move (fun _ => False) s t) : t.Occupied := by
  intro id
  rcases k.patches with heq | ⟨keep, rfl⟩
  · rw [heq]
    exact h id
  · rw [get?_keepPatches]
    cases s.patches.get? id with
    | none => simp
    | some ps => by_cases hnone : ps.filter keep = [] <;> simp [hnone, Option.filter]

theorem Occupied.add (h : s.Occupied) (c : Component) : (s.add c).Occupied := by
  intro id
  rw [get?_patches_add]
  split
  · simp
  · exact h id

theorem Move.sublist_patchesFor (h : Move (fun _ => False) s t) (id : String) :
    (t.patchesFor id).Sublist (s.patchesFor id) := by
  rcases h.patches with heq | ⟨keep, rfl⟩
  · rw [patchesFor, heq, ← patchesFor]
  · rw [patchesFor_keepPatches]
    exact List.filter_sublist

/-- No record is marked as a patch. -/
def Unmarked (s : Store) : Prop := ∀ e ∈ s.entries, e.2.mergeKind = .standalone

theorem lasting_standalone : Component.Lasting (·.mergeKind = .standalone) where
  bare _ := Iff.rfl
  subsume _ _ _ h := h
  strip _ _ h := h

theorem Unmarked.components (h : s.Unmarked) : ∀ c ∈ s.components, c.mergeKind = .standalone :=
  Consists.components lasting_standalone h

theorem Unmarked.of_entries (h : s.Unmarked) (heq : t.entries = s.entries) : t.Unmarked :=
  Consists.of_entries (p := fun c => c.mergeKind = .standalone) h heq

theorem Unmarked.add (h : s.Unmarked) (c : Component) : (s.add c).Unmarked :=
  Consists.add lasting_standalone h MergeKind.isPatch_eq_false_iff.1

theorem Unmarked.move (h : s.Unmarked) (k : Move (fun _ => False) s t) : t.Unmarked :=
  Consists.move lasting_standalone h (fun _ hno => hno.elim) k

/-- The records are no patches, and the patches of an ID are out of those that arrived for it, in
their order. -/
structure PatchesApart (arrived : String → List Component) (s : Store) : Prop where
  unmarked : s.Unmarked
  occupied : s.Occupied
  queued : ∀ id, (s.patchesFor id).Sublist (arrived id)

variable {arrived : String → List Component}

theorem PatchesApart.same (h : s.PatchesApart arrived) (k : SameCatalog s t) :
    t.PatchesApart arrived where
  unmarked := h.unmarked.of_entries k.entries
  occupied id := by
    rw [k.patches]
    exact h.occupied id
  queued id := by
    rw [k.patchesFor]
    exact h.queued id

theorem PatchesApart.move (h : s.PatchesApart arrived) (k : Move (fun _ => False) s t) :
    t.PatchesApart arrived where
  unmarked := h.unmarked.move k
  occupied := h.occupied.move k
  queued id := (k.sublist_patchesFor id).trans (h.queued id)

theorem PatchesApart.add (h : s.PatchesApart arrived) (c : Component) :
    (s.add c).PatchesApart fun id => arrived id ++ arrivals id [(s, c)] where
  unmarked := h.unmarked.add c
  occupied := h.occupied.add c
  queued id := by
    rw [patchesFor_add_eq_append]
    exact (h.queued id).append_right _

theorem PatchesApart.nothing (h : s.PatchesApart arrived) :
    s.PatchesApart fun id => arrived id ++ arrivals id [] where
  unmarked := h.unmarked
  occupied := h.occupied
  queued id := (h.queued id).trans (List.sublist_append_left _ _)

theorem PatchesApart.course (h : s.PatchesApart arrived) (k : Course s adds t) :
    t.PatchesApart fun id => arrived id ++ arrivals id adds := by
  induction k with
  | refl => exact h.nothing
  | move _ k ih => exact ih.move k
  | @add adds t _ c ih =>
    have hnext := ih.add c
    simp only [List.append_assoc, ← arrivals_append] at hnext
    exact hnext

theorem PatchesApart.apply (h : s.PatchesApart arrived) (op : Operation) :
    (s.apply op).PatchesApart fun id => arrived id ++ arrivals id (s.operationAdditions op) := by
  by_cases hstem : ∃ stem, op = .withStemmer stem
  · obtain ⟨stem, rfl⟩ := hstem
    exact (h.same (s.sameCatalog_withStemmer stem)).nothing
  · push Not at hstem
    exact h.course (s.course_apply hstem)

theorem PatchesApart.run (h : s.PatchesApart arrived) (ops : List Operation) :
    (s.run ops).PatchesApart fun id => arrived id ++ arrivals id (s.runAdditions ops) := by
  induction ops generalizing s arrived with
  | nil => exact h.nothing
  | cons op ops ih =>
    have hrest := ih (h.apply op)
    simp only [List.append_assoc, ← arrivals_append] at hrest
    exact hrest

theorem patchesApart_new (settings : Settings) (reader : Reader) :
    (new settings reader).PatchesApart fun _ => [] where
  unmarked _ he := absurd he List.not_mem_nil
  occupied _ h := nomatch h
  queued _ := List.Sublist.refl []

theorem Reachable.occupied {settings : Settings} {reader : Reader}
    (h : Reachable settings reader s) : s.Occupied := by
  obtain ⟨ops, -, rfl⟩ := h
  exact ((patchesApart_new settings reader).run ops).occupied

theorem Occupied.mem_patchedIds (h : s.Occupied) : id ∈ s.patchedIds ↔ s.patchesFor id ≠ [] := by
  unfold patchedIds
  rw [TextMap.mem_keys, h.get?_eq]
  by_cases hnone : s.patchesFor id = [] <;> simp [hnone]

theorem patches_removeKeys (s : Store) (keys : List Nat) :
    (s.removeKeys keys).2.patches = s.patches := by
  have heach (keys : List Nat) (r : Nat × Store) :
      (keys.foldl (fun r k => (r.1 + (r.2.find? k).toList.length, r.2.removeKey k)) r).2.patches =
        r.2.patches := by
    induction keys generalizing r with
    | nil => rfl
    | cons k keys ih => exact (ih _).trans (r.2.patches_removeKey k)
  unfold removeKeys
  rw [(sameCatalog_settle _).patches]
  exact heach keys (0, s.inhibit.2)

theorem patches_remove (s : Store) (c : Component) : (s.remove c).2.patches = s.patches := by
  unfold remove
  split
  · rfl
  · exact s.patches_removeKey _

/-- Patches stay apart from records. Whatever was done to a catalog, no record is marked as a patch;
an ID with patches has at least one, all of them patches for it, out of those that arrived and in
their order; the IDs with patches are listed in strict order. A patch that comes in goes behind
those of its ID, and no removal of records touches patches. -/
theorem patches_stay_apart (settings : Settings) (reader : Reader) (ops : List Operation) :
    (∀ c ∈ ((new settings reader).run ops).components, c.mergeKind = .standalone) ∧
    (∀ id ps, ((new settings reader).run ops).patches.get? id = some ps → ps ≠ [] ∧
      (∀ p ∈ ps, (p.mergeKind = .append ∨ p.mergeKind = .replace) ∧ p.id = some id) ∧
      ps.Sublist (arrivals id ((new settings reader).runAdditions ops))) ∧
    (((new settings reader).run ops).patchedIds.Pairwise (· < ·) ∧
      ∀ id, id ∈ ((new settings reader).run ops).patchedIds ↔
        ((new settings reader).run ops).patchesFor id ≠ []) ∧
    (∀ s : Store, (∀ c id, (s.add c).patchesFor id = s.patchesFor id ++ arrivals id [(s, c)]) ∧
      (∀ id, (s.removeById id).2.patches = s.patches) ∧
      (∀ uniqueId, (s.removeByUniqueId uniqueId).2.patches = s.patches) ∧
      (∀ key value, (s.removeByMetadata key value).2.patches = s.patches) ∧
      (∀ c, (s.remove c).2.patches = s.patches)) := by
  have h := (patchesApart_new settings reader).run ops
  simp only [List.nil_append] at h
  refine ⟨h.unmarked.components, ?_, ⟨TextMap.sorted_keys _, ?_⟩, ?_⟩
  · intro id ps hps
    have heq : ((new settings reader).run ops).patchesFor id = ps := by
      rw [patchesFor, TextMap.getD, hps, Option.getD_some]
    have hsub := h.queued id
    rw [heq] at hsub
    refine ⟨?_, ?_, hsub⟩
    · rintro rfl
      exact h.occupied id hps
    · intro p hp
      exact mem_arrivals (hsub.subset hp)
  · intro id
    exact h.occupied.mem_patchedIds
  · intro s
    exact ⟨s.patchesFor_add_eq_append, fun _ => s.patches_removeKeys _,
      fun _ => s.patches_removeKeys _, fun _ _ => s.patches_removeKeys _, s.patches_remove⟩

end Store

end SoftwareCatalog
