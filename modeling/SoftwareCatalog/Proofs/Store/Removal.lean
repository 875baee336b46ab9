import SoftwareCatalog.Proofs.Store.PrimaryIndex

namespace SoftwareCatalog.Store

variable {s : Store} {p : Component → Bool} {k : Nat}

theorem entries_removeKey (s : Store) (key : Nat) :
    (s.removeKey key).entries = s.entries.filter (·.1 ≠ key) := by
  cases hold : s.find? key with
  | none =>
    rw [removeKey_of_none hold, eq_comm, List.filter_eq_self]
    exact fun e he => decide_eq_true (find?_eq_none_iff.1 hold e he)
  | some old => exact (removed_removeKey hold).entries

theorem Keyed.length_removeKey (hs : s.Keyed) (key : Nat) :
    (s.find? key).toList.length + (s.removeKey key).entries.length = s.entries.length := by
  cases hold : s.find? key with
  | none => rw [removeKey_of_none hold, Option.toList_none, List.length_nil, Nat.zero_add]
  | some old =>
    rw [entries_removeKey, ← hs.length_filter_ne (mem_entries_of_find? hold)]
    exact Nat.add_comm 1 _

/-- A run over keys counts the entries that go, where each of its steps does. -/
theorem counted_foldl {f : Nat × Store → Nat → Nat × Store}
    (hedits : ∀ r key, Edits r.2 (f r key).2)
    (hstep : ∀ r key, r.2.WellIndexed →
      (f r key).1 + (f r key).2.entries.length = r.1 + r.2.entries.length)
    (keys : List Nat) {r : Nat × Store} (hr : r.2.WellIndexed) :
    (keys.foldl f r).1 + (keys.foldl f r).2.entries.length = r.1 + r.2.entries.length := by
  induction keys generalizing r with
  | nil => rfl
  | cons key keys ih => exact (ih (hr.edits (hedits r key))).trans (hstep r key hr)

theorem entries_removeEach (s : Store) (keys : List Nat) :
    (s.removeEach keys).2.entries = s.entries.filter (·.1 ∉ keys) := by
  have hfold (keys : List Nat) (r : Nat × Store) :
      (keys.foldl (fun r k => (r.1 + (r.2.find? k).toList.length, r.2.removeKey k)) r).2.entries =
        r.2.entries.filter (·.1 ∉ keys) := by
    induction keys generalizing r with
    | nil => simp
    | cons key keys ih =>
      rw [List.foldl_cons, ih, entries_removeKey, List.filter_filter]
      refine List.filter_congr fun e _ => ?_
      simp [Bool.and_comm]
  exact hfold keys (0, s)

theorem entries_removeKeys (s : Store) (keys : List Nat) :
    (s.removeKeys keys).2.entries = s.entries.filter (·.1 ∉ keys) := by
  unfold removeKeys
  rw [(sameCatalog_settle _).entries]
  exact s.inhibit.2.entries_removeEach keys

/-- The removal of several records counts those that were there. -/
theorem WellIndexed.length_removeKeys (hs : s.WellIndexed) (keys : List Nat) :
    (s.removeKeys keys).1 + (s.removeKeys keys).2.entries.length = s.entries.length := by
  have hstep (r : Nat × Store) (key : Nat) (hr : r.2.WellIndexed) :
      r.1 + (r.2.find? key).toList.length + (r.2.removeKey key).entries.length =
        r.1 + r.2.entries.length := by
    have hone := hr.keyed.length_removeKey key
    omega
  have hcounted : (s.inhibit.2.removeEach keys).1 + (s.inhibit.2.removeEach keys).2.entries.length =
      0 + s.entries.length :=
    counted_foldl (fun r key => edits_removeKey r.2 key) hstep keys hs.inhibit
  unfold removeKeys
  rw [(sameCatalog_settle _).entries]
  exact hcounted.trans (Nat.zero_add _)

theorem mem_keysWhere (hp : Unattached p) :
    k ∈ s.keysWhere p ↔ ∃ c, (k, c) ∈ s.entries ∧ p c = true := by
  unfold keysWhere entries
  constructor
  · intro hk
    obtain ⟨r, hr, rfl⟩ := List.mem_map.1 hk
    obtain ⟨hr, hpr⟩ := List.mem_filter.1 hr
    exact ⟨r.component.bare, List.mem_map_of_mem hr, (hp _).trans hpr⟩
  · intro hsome
    obtain ⟨c, hc, hpc⟩ := hsome
    obtain ⟨r, hr, heq⟩ := List.mem_map.1 hc
    obtain ⟨rfl, rfl⟩ := Prod.mk.inj heq
    exact List.mem_map.2 ⟨r, List.mem_filter.2 ⟨hr, (hp _).symm.trans hpc⟩, rfl⟩

/-- The key of an entry tells whether its component is meant. -/
theorem Keyed.mem_keysWhere_iff (hs : s.Keyed) (hp : Unattached p) {e : Nat × Component}
    (he : e ∈ s.entries) : e.1 ∈ s.keysWhere p ↔ p e.2 = true := by
  rw [mem_keysWhere hp]
  constructor
  · intro hsome
    obtain ⟨c, hc, hpc⟩ := hsome
    rwa [hs.component_eq hc he] at hpc
  · intro hpe
    exact ⟨e.2, he, hpe⟩

theorem bare_components (s : Store) :
    s.components.map Component.bare = s.entries.map Prod.snd := by
  unfold components entries
  rw [List.map_map, List.map_map]
  rfl

theorem length_entries (s : Store) : s.entries.length = s.components.length := by
  unfold entries components
  rw [List.length_map, List.length_map]

/-- The components under certain entries. -/
theorem map_snd_filter_entries (hp : Unattached p) (s : Store) :
    (s.entries.filter fun e => p e.2).map Prod.snd = (s.components.filter p).map Component.bare := by
  have hbare : (p ∘ Component.bare) = p := funext hp
  have hcomponents := s.bare_components
  calc (s.entries.filter fun e => p e.2).map Prod.snd
      = (s.entries.map Prod.snd).filter p := List.filter_map.symm
    _ = (s.components.map Component.bare).filter p := by rw [hcomponents]
    _ = (s.components.filter p).map Component.bare := by rw [List.filter_map, hbare]

/-- What is counted is what is not left. -/
theorem count_of_left {α : Type} {as : List α} {q : α → Bool} {n : Nat}
    (h : n + (as.filter q).length = as.length) : n = as.countP fun a => !q a := by
  have hall := as.length_eq_countP_add_countP q
  rw [List.countP_eq_length_filter] at hall
  simp only [Bool.not_eq_true, Bool.decide_eq_false] at hall
  omega

/-- A catalog of two builds of one tool. -/
def twoBuilds : Store :=
  (new ⟨⟨true, false, false⟩, {}, ⟨["en"], 4, true, 3⟩⟩ Reader.any).run
    [.add (builtFor "x86_64"), .add (builtFor "aarch64")]

theorem twoBuilds_reachable :
    Reachable ⟨⟨true, false, false⟩, {}, ⟨["en"], 4, true, 3⟩⟩ Reader.any twoBuilds := by
  refine ⟨_, ?_, rfl⟩
  intro op hop
  simp only [List.mem_cons, List.not_mem_nil, or_false] at hop
  rcases hop with rfl | rfl <;> exact Component.proper_setId {} "org.example.Tool"

end SoftwareCatalog.Store
