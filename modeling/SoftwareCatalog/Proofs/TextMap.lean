import SoftwareCatalog.TextMap

namespace SoftwareCatalog.TextMap

variable {α β : Type}

theorem get?_modifyD (m : TextMap α) (k k' : String) (d : α) (f : α → α) :
    (m.modifyD k d f).get? k' = if k' = k then some (f (m.getD k d)) else m.get? k' :=
  get?_insert ..

theorem lookup_eq_some_iff {k : String} {v : α} {es : List (String × α)}
    (h : es.Pairwise fun a b => a.1 < b.1) : es.lookup k = some v ↔ (k, v) ∈ es := by
  induction es with
  | nil => simp
  | cons e es ih =>
    obtain ⟨hhead, htail⟩ := List.pairwise_cons.1 h
    rw [lookup_cons_ite, List.mem_cons]
    by_cases hk : k = e.1
    · -- a second entry with this key would have to lie above itself
      have hout : (k, v) ∉ es := fun hm => String.lt_irrefl _ (hk ▸ hhead _ hm)
      obtain ⟨ke, ve⟩ := e
      have hk' : k = ke := hk
      simp [hk', eq_comm] at hout ⊢
      exact fun hm => absurd hm hout
    · have hne : (k, v) ≠ e := fun he => hk (he ▸ rfl)
      simp [hk, hne, ih htail]

theorem get?_eq_some_iff {m : TextMap α} {k : String} {v : α} :
    m.get? k = some v ↔ (k, v) ∈ m.entries :=
  lookup_eq_some_iff m.sorted

theorem mem_keys {m : TextMap α} {k : String} : k ∈ m.keys ↔ ∃ v, m.get? k = some v := by
  simp [keys, get?_eq_some_iff]

theorem sorted_keys (m : TextMap α) : m.keys.Pairwise (· < ·) := List.pairwise_map.2 m.sorted

theorem nodup_keys (m : TextMap α) : m.keys.Nodup := by
  refine m.sorted_keys.imp ?_
  rintro k _ hlt rfl
  exact String.lt_irrefl _ hlt

theorem get?_filter (p : String → α → Bool) (m : TextMap α) (k : String) :
    (m.filter p).get? k = (m.get? k).filter (p k) := by
  apply Option.ext
  intro v
  simp [get?_eq_some_iff, Option.filter_eq_some_iff, filter]

theorem get?_map (f : α → β) (m : TextMap α) (k : String) :
    (m.map f).get? k = (m.get? k).map f := by
  change (m.entries.map fun e => (e.1, f e.2)).lookup k = (m.entries.lookup k).map f
  induction m.entries with
  | nil => rfl
  | cons e es ih =>
    rw [List.map_cons, lookup_cons_ite, lookup_cons_ite, ih]
    split <;> rfl

/-- A map is known by its lookups. -/
theorem ext_get? {m n : TextMap α} (h : ∀ k, m.get? k = n.get? k) : m = n := by
  have hmem : ∀ e, e ∈ m.entries ↔ e ∈ n.entries := by
    intro e
    rw [← get?_eq_some_iff (k := e.1) (v := e.2), h e.1]
    exact get?_eq_some_iff
  have hnodup (o : TextMap α) : o.entries.Nodup :=
    List.Pairwise.of_map _ (fun _ _ => mt (congrArg _)) o.nodup_keys
  have hperm : m.entries.Perm n.entries :=
    (List.perm_ext_iff_of_nodup (hnodup m) (hnodup n)).2 hmem
  apply TextMap.ext
  refine hperm.eq_of_pairwise ?_ m.sorted n.sorted
  intro a b _ _ hab hba
  exact absurd (String.lt_trans hab hba) (String.lt_irrefl _)

/-- Where each step of a run over entries in order touches no key but its own, the step of a key
alone says what becomes of it. -/
theorem get?_foldl_of_local {f : TextMap α → String × β → TextMap α}
    (hother : ∀ m e k, k ≠ e.1 → (f m e).get? k = m.get? k)
    (hown : ∀ m n e, m.get? e.1 = n.get? e.1 → (f m e).get? e.1 = (f n e).get? e.1)
    {es : List (String × β)} (h : es.Pairwise fun a b => a.1 < b.1) (m : TextMap α) (k : String) :
    (es.foldl f m).get? k = (es.lookup k).elim (m.get? k) fun v => (f m (k, v)).get? k := by
  induction es generalizing m with
  | nil => rfl
  | cons e es ih =>
    obtain ⟨hhead, htail⟩ := List.pairwise_cons.1 h
    rw [List.foldl_cons, ih htail, lookup_cons_ite]
    by_cases hk : k = e.1
    · -- the keys of later entries are greater
      have hlater : es.lookup k = none := by
        cases hl : es.lookup k with
        | none => rfl
        | some v =>
          have hin := (lookup_eq_some_iff htail).1 hl
          exact absurd (hhead _ hin) (hk ▸ String.lt_irrefl _)
      rw [if_pos hk, hlater, hk]
      rfl
    · rw [if_neg hk]
      cases es.lookup k with
      | none => exact hother m e k hk
      | some v => exact hown _ _ (k, v) (hother m e k hk)

end SoftwareCatalog.TextMap
