import SoftwareCatalog.Proofs.Store.PrimaryIndex

namespace SoftwareCatalog.Store

variable {s t : Store} {key : Nat} {patch c : Component} {keys : List Nat}

/-- The records that a patch is for. -/
def targets (s : Store) (id : String) (patch : Component) : List Nat :=
  (s.keysOf id).filter fun k => (s.find? k).any (patchMatches patch)

/-- The catalog after the texts of a component were pooled. -/
def pooled (s : Store) (c : Component) : Store := { s with pool := s.pool.internAll c.pooledTexts }

theorem targets_pooled (s : Store) (c : Component) (id : String) (patch : Component) :
    (s.pooled c).targets id patch = s.targets id patch := by
  unfold targets pooled keysOf find?
  rfl

/-- Adding a patch gives it to the records that it is for. -/
theorem add_eq_given (s : Store) {id : String} (hid : patch.id = some id)
    (h : patch.mergeKind.isPatch = true) : ∃ pool patches, s.add patch =
      { ({ s with pool } : Store).given patch (s.targets id patch) with patches } := by
  rw [s.add_patch_eq hid h, ← s.targets_pooled patch]
  exact ⟨s.pool.internAll patch.pooledTexts, _, rfl⟩

theorem WellIndexed.nodup_targets (h : s.WellIndexed) (id : String) (patch : Component) :
    (s.targets id patch).Nodup := by
  have hkeys : (s.keysOf id).Nodup := by
    rw [h.keysOf_eq]
    exact h.keyed.nodup_keysNamed id
  exact hkeys.filter _

theorem find?_of_mem_targets {id : String} (h : key ∈ s.targets id patch) :
    ∃ c, s.find? key = some c := by
  have hany := (List.mem_filter.1 h).2
  cases hc : s.find? key with
  | none =>
    rw [hc] at hany
    cases hany
  | some c => exact ⟨c, rfl⟩

theorem given_cons_of_none (h : s.find? key = none) :
    s.given patch (key :: keys) = s.given patch keys := by
  unfold given
  rw [List.foldl_cons, update_of_none h]

theorem Keyed.mem_update (h : s.Keyed) {f : Component → Component}
    (hbare : ∀ c, (f c).bare = f c.bare) {n : Nat} {d : Component} :
    (n, d) ∈ (s.update key f).entries ↔
      (n ≠ key ∧ (n, d) ∈ s.entries) ∨ (n = key ∧ ∃ b, (n, b) ∈ s.entries ∧ d = f b) := by
  cases hc : s.find? key with
  | none =>
    have hno := find?_eq_none_iff.1 hc
    rw [update_of_none hc]
    constructor
    · intro hd
      exact .inl ⟨hno _ hd, hd⟩
    · intro heither
      rcases heither with ⟨-, hd⟩ | ⟨rfl, b, hb, -⟩
      · exact hd
      · exact absurd rfl (hno _ hb)
  | some c =>
    have hold := mem_entries_of_find? hc
    rw [(altered_update hc f).mem_iff h hold, hbare]
    constructor
    · intro heither
      rcases heither with ⟨rfl, rfl⟩ | hothers
      · exact .inr ⟨rfl, c.bare, hold, rfl⟩
      · exact .inl hothers
    · intro heither
      rcases heither with hothers | ⟨rfl, b, hb, rfl⟩
      · exact .inr hothers
      · rw [h.component_eq hb hold]
        exact .inl ⟨rfl, rfl⟩

/-- Each record gets the patch once. -/
theorem WellIndexed.mem_given (h : s.WellIndexed) (hnodup : keys.Nodup) {n : Nat} {d : Component} :
    (n, d) ∈ (s.given patch keys).entries ↔
      (n ∉ keys ∧ (n, d) ∈ s.entries) ∨
      (n ∈ keys ∧ ∃ b, (n, b) ∈ s.entries ∧ d = b.subsume (patchFlags patch) patch) := by
  induction keys generalizing s with
  | nil => simp [given]
  | cons key keys ih =>
    obtain ⟨hkey, hnodup⟩ := List.nodup_cons.1 hnodup
    have hnext : (s.update key fun c => c.subsume (patchFlags patch) patch).WellIndexed :=
      h.edits (edits_update s key fun _ => rfl)
    have hstep {m : Nat} {e : Component} :
        (m, e) ∈ (s.update key fun c => c.subsume (patchFlags patch) patch).entries ↔
          (m ≠ key ∧ (m, e) ∈ s.entries) ∨
          (m = key ∧ ∃ b, (m, b) ∈ s.entries ∧ e = b.subsume (patchFlags patch) patch) := by
      apply h.keyed.mem_update
      exact fun _ => rfl
    change (n, d) ∈ ((s.update key _).given patch keys).entries ↔ _
    rw [ih hnext hnodup, hstep]
    simp only [hstep, List.mem_cons, not_or]
    constructor
    · intro heither
      rcases heither with ⟨hn, ⟨hne, hd⟩ | ⟨rfl, hd⟩⟩ | ⟨hn, b, ⟨-, hb⟩ | ⟨rfl, -⟩, rfl⟩
      · exact .inl ⟨⟨hne, hn⟩, hd⟩
      · exact .inr ⟨.inl rfl, hd⟩
      · exact .inr ⟨.inr hn, b, hb, rfl⟩
      · exact absurd hn hkey
    · intro heither
      rcases heither with ⟨⟨hne, hn⟩, hd⟩ | ⟨rfl | hn, b, hb, rfl⟩
      · exact .inl ⟨hn, .inl ⟨hne, hd⟩⟩
      · exact .inl ⟨hkey, .inr ⟨rfl, b, hb, rfl⟩⟩
      · have hne : n ≠ key := fun heq => hkey (heq ▸ hn)
        exact .inr ⟨hn, b, .inl ⟨hne, hb⟩, rfl⟩

end SoftwareCatalog.Store
