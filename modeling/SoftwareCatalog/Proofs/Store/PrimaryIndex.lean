import SoftwareCatalog.Proofs.Source.Stamped

namespace SoftwareCatalog.Store

/-- The keys of the entries with an ID, in their order. -/
def keysNamed (es : List (Nat × Component)) (x : String) : List Nat :=
  (es.filter fun e => e.2.id == some x).map Prod.fst

/-- Every record has a proper ID, and the bucket of an ID lists the keys of its records. -/
structure WellIndexed (s : Store) : Prop where
  keyed : s.Keyed
  named : ∀ e ∈ s.entries, ∃ x, e.2.id = some x ∧ x ≠ ""
  buckets : ∀ x, s.keysById.get? x = bucket (keysNamed s.entries x)
  single : s.settings.add.useUniqueId = false → ∀ x, (keysNamed s.entries x).length ≤ 1

theorem mem_keysNamed {es : List (Nat × Component)} {x : String} {k : Nat} :
    k ∈ keysNamed es x ↔ ∃ c, (k, c) ∈ es ∧ c.id = some x := by
  simp [keysNamed]

theorem keysNamed_append (es fs : List (Nat × Component)) (x : String) :
    keysNamed (es ++ fs) x = keysNamed es x ++ keysNamed fs x := by
  simp [keysNamed]

/-- A change that keeps the ID leaves the keys of every ID. -/
theorem keysNamed_map_alter {es : List (Nat × Component)} {key : Nat} {g : Component → Component}
    (hid : ∀ c, (key, c) ∈ es → (g c).id = c.id) (x : String) :
    keysNamed (es.map (alter key g)) x = keysNamed es x := by
  have hfilter : es.filter ((fun e => e.2.id == some x) ∘ alter key g) =
      es.filter fun e => e.2.id == some x := by
    apply List.filter_congr
    intro e he
    obtain ⟨k, c⟩ := e
    by_cases hk : k = key
    · have hsame := hid c (hk ▸ he)
      simp [alter, hk, hsame]
    · simp [alter, hk]
  unfold keysNamed
  rw [List.filter_map, List.map_map, hfilter]
  apply List.map_congr_left
  intro e _
  exact alter_key key g e

theorem keysNamed_filter (es : List (Nat × Component)) (key : Nat) (x : String) :
    keysNamed (es.filter (·.1 ≠ key)) x = (keysNamed es x).filter (· ≠ key) := by
  unfold keysNamed
  rw [List.filter_filter, List.filter_map, List.filter_filter]
  congr 2
  funext e
  exact Bool.and_comm _ _

theorem Keyed.nodup_keysNamed {s : Store} (h : s.Keyed) (x : String) :
    (keysNamed s.entries x).Nodup := by
  have hsub : (keysNamed s.entries x).Sublist (s.entries.map Prod.fst) :=
    List.filter_sublist.map Prod.fst
  exact (h.ascending.imp Nat.ne_of_lt).sublist hsub

theorem WellIndexed.keysOf_eq {s : Store} (h : s.WellIndexed) (x : String) :
    s.keysOf x = keysNamed s.entries x := by
  unfold keysOf TextMap.getD
  rw [h.buckets x, bucket]
  split
  · rename_i hnil
    rw [hnil]
    rfl
  · rfl

theorem wellIndexed_new (settings : Settings) (reader : Reader) :
    (new settings reader).WellIndexed := by
  have hnone : (new settings reader).entries = [] := rfl
  refine ⟨⟨?_, ?_⟩, ?_, ?_, ?_⟩
  · simp [hnone]
  · simp [hnone]
  · simp [hnone]
  · intro x
    rw [hnone]
    rfl
  · intro _ x
    rw [hnone]
    exact Nat.zero_le 1

theorem WellIndexed.same {s t : Store} (h : s.WellIndexed) (k : SameIndices s t) :
    t.WellIndexed where
  keyed := ⟨k.entries ▸ h.keyed.ascending, k.entries ▸ k.nextKey ▸ h.keyed.fresh⟩
  named := k.entries ▸ h.named
  buckets := k.entries ▸ k.keysById ▸ h.buckets
  single := k.entries ▸ k.settings ▸ h.single

theorem WellIndexed.inhibit {s : Store} (h : s.WellIndexed) : s.inhibit.2.WellIndexed :=
  h.same s.sameCatalog_inhibit.sameIndices

theorem WellIndexed.altered {s t : Store} (h : s.WellIndexed) {key : Nat}
    {g : Component → Component} {old : Component} (hold : (key, old) ∈ s.entries)
    (hid : (g old).id = old.id) (k : Altered key g old s t) : t.WellIndexed := by
  have hkeep : ∀ c, (key, c) ∈ s.entries → (g c).id = c.id := by
    intro c hc
    obtain rfl := h.keyed.component_eq hc hold
    exact hid
  have hnamed (x : String) : keysNamed t.entries x = keysNamed s.entries x := by
    rw [k.entries]
    exact keysNamed_map_alter hkeep x
  have hkeys : t.entries.map Prod.fst = s.entries.map Prod.fst := by
    rw [k.entries, List.map_map]
    exact List.map_congr_left fun e _ => alter_key key g e
  refine ⟨⟨hkeys ▸ h.keyed.ascending, ?_⟩, ?_, ?_, ?_⟩
  · intro e he
    rw [k.nextKey]
    rcases (k.mem_iff h.keyed hold).1 he with ⟨hkey, -⟩ | ⟨-, hin⟩
    · rw [hkey]
      exact h.keyed.fresh _ hold
    · exact h.keyed.fresh e hin
  · intro e he
    rcases (k.mem_iff h.keyed hold).1 he with ⟨-, hnew⟩ | ⟨-, hin⟩
    · rw [hnew, hid]
      exact h.named _ hold
    · exact h.named e hin
  · intro x
    rw [k.keysById, hnamed]
    exact h.buckets x
  · intro hplain x
    rw [hnamed]
    exact h.single (k.rules.settings ▸ hplain) x

theorem WellIndexed.removed {s t : Store} (h : s.WellIndexed) {key : Nat} {old c : Component}
    (hold : (key, old) ∈ s.entries) (hid : c.id = old.id) (k : Removed key c s t) :
    t.WellIndexed := by
  have hnamed (x : String) :
      keysNamed t.entries x = (keysNamed s.entries x).filter (· ≠ key) := by
    rw [k.entries]
    exact keysNamed_filter s.entries key x
  have hsub : t.entries.Sublist s.entries := k.entries ▸ List.filter_sublist
  refine ⟨⟨h.keyed.ascending.sublist (hsub.map Prod.fst), ?_⟩, ?_, ?_, ?_⟩
  · intro e he
    rw [k.nextKey]
    exact h.keyed.fresh e (hsub.subset he)
  · intro e he
    exact h.named e (hsub.subset he)
  · intro x
    rw [k.keysById, hnamed, h.keysOf_eq]
    split
    · rfl
    · rename_i hx
      rw [h.buckets x]
      congr 1
      symm
      rw [List.filter_eq_self]
      intro n hn
      -- the removed record has another ID
      have hne : n ≠ key := by
        intro heq
        obtain rfl := heq
        obtain ⟨d, hd, hdx⟩ := mem_keysNamed.1 hn
        obtain rfl := h.keyed.component_eq hd hold
        exact hx (hid.trans hdx)
      simpa using hne
  · intro hplain x
    rw [hnamed]
    exact Nat.le_trans (List.length_filter_le _ _) (h.single (k.rules.settings ▸ hplain) x)

theorem WellIndexed.inserted {s t : Store} (h : s.WellIndexed) {c : Component} {x : String}
    (hid : c.id = some x) (hx : x ≠ "")
    (hfree : s.settings.add.useUniqueId = false → keysNamed s.entries x = [])
    (k : Inserted c s t) : t.WellIndexed := by
  have hnamed (y : String) : keysNamed t.entries y =
      keysNamed s.entries y ++ if c.id = some y then [s.nextKey] else [] := by
    rw [k.entries, keysNamed_append]
    by_cases hy : c.id = some y <;> simp [keysNamed, hy]
  refine ⟨⟨?_, ?_⟩, ?_, ?_, ?_⟩
  · rw [k.entries, List.map_append, List.pairwise_append]
    refine ⟨h.keyed.ascending, by simp, ?_⟩
    intro a ha b hb
    obtain ⟨e, he, rfl⟩ := List.mem_map.1 ha
    have hb : b = s.nextKey := by simpa using hb
    rw [hb]
    exact h.keyed.fresh e he
  · intro e he
    rw [k.nextKey]
    rcases k.mem_iff.1 he with hin | ⟨hkey, -⟩
    · have hfresh := h.keyed.fresh e hin
      omega
    · omega
  · intro e he
    rcases k.mem_iff.1 he with hin | ⟨-, hnew⟩
    · exact h.named e hin
    · rw [hnew]
      exact ⟨x, hid, hx⟩
  · intro y
    rw [k.keysById, hnamed, h.keysOf_eq, h.buckets y]
    by_cases hy : c.id = some y <;> simp [hy, bucket]
  · intro hplain y
    rw [k.rules.settings] at hplain
    rw [hnamed]
    by_cases hy : c.id = some y
    · have hxy : x = y := Option.some.inj (hid.symm.trans hy)
      rw [if_pos hy, ← hxy, hfree hplain]
      simp
    · simpa [hy] using h.single hplain y

theorem WellIndexed.edit {s t : Store} (h : s.WellIndexed) (k : Edit s t) : t.WellIndexed := by
  cases k with
  | same k => exact h.same k
  | altered hold hid k => exact h.altered hold hid k
  | removed hold hid _ k => exact h.removed hold hid k

theorem WellIndexed.edits {s t : Store} (h : s.WellIndexed) (k : Edits s t) : t.WellIndexed := by
  induction k with
  | refl => exact h
  | tail _ k ih => exact ih.edit k

theorem mem_keysOf_of_firstWithId {s : Store} {id : String} {alike : Component → Bool} {key : Nat}
    (h : s.firstWithId id alike = some key) : key ∈ s.keysOf id := by
  unfold firstWithId at h
  split at h
  · exact List.mem_of_find?_eq_some h
  · exact List.mem_of_mem_head? h

theorem keysOf_of_firstWithId_none {s : Store} {id : String} {alike : Component → Bool}
    (hplain : s.settings.add.useUniqueId = false) (h : s.firstWithId id alike = none) :
    s.keysOf id = [] := by
  unfold firstWithId at h
  rw [if_neg (by simp [hplain])] at h
  exact List.head?_eq_none_iff.1 h

theorem mem_of_existing? {s : Store} {c : Component} {id : String} (hid : c.id = some id)
    {key : Nat} (h : s.existing? c = some key) :
    key ∈ s.keysOf id ∨ (s.firstWithId id fun d => d.sameIdentity c) = none ∧
      key ∈ s.keysOf (toggleDesktopEnding id) := by
  unfold existing? at h
  rw [hid, Option.bind_some, Option.or_eq_some_iff] at h
  rcases h with h | ⟨hnone, h⟩
  · exact .inl (mem_keysOf_of_firstWithId h)
  · split at h
    · exact .inr ⟨hnone, mem_keysOf_of_firstWithId h⟩
    · cases h

theorem WellIndexed.find?_of_keysOf {s : Store} (h : s.WellIndexed) {x : String} {key : Nat}
    (hkey : key ∈ s.keysOf x) : ∃ c, s.find? key = some c ∧ c.id = some x := by
  rw [h.keysOf_eq] at hkey
  obtain ⟨b, hb, hid⟩ := mem_keysNamed.1 hkey
  obtain ⟨c, hc, rfl⟩ := h.keyed.find?_of_mem hb
  exact ⟨c, hc, hid⟩

/-- The bucket that led to a key names a record that is there. -/
theorem WellIndexed.find?_of_existing? {s : Store} (h : s.WellIndexed) {c : Component} {x : String}
    (hid : c.id = some x) {key : Nat} (hkey : s.existing? c = some key) :
    ∃ d, s.find? key = some d := by
  rcases mem_of_existing? hid hkey with hmem | ⟨-, hmem⟩
  all_goals
    obtain ⟨d, hd, -⟩ := h.find?_of_keysOf hmem
    exact ⟨d, hd⟩

/-- Without unique IDs no record with the ID is left once the one that describes the same goes. -/
theorem WellIndexed.keysNamed_of_removed {s rest : Store} (h : s.WellIndexed)
    (hplain : s.settings.add.useUniqueId = false) {c d : Component} {x : String}
    (hid : c.id = some x) {key : Nat} (hkey : s.existing? c = some key)
    (k : Removed key d s rest) : keysNamed rest.entries x = [] := by
  rw [k.entries, keysNamed_filter, ← h.keysOf_eq]
  rcases mem_of_existing? hid hkey with hmem | ⟨hnone, -⟩
  · -- the record that goes was the only one with this ID
    have hone := h.keysOf_eq x ▸ h.single hplain x
    obtain ⟨k', hk'⟩ := List.length_eq_one_iff.1
      (Nat.le_antisymm hone (List.length_pos_of_mem hmem))
    rw [hk'] at hmem ⊢
    simp [List.mem_singleton.1 hmem]
  · rw [keysOf_of_firstWithId_none hplain hnone]
    rfl

theorem WellIndexed.met {s t : Store} (h : s.WellIndexed) {c : Component} {x : String}
    (hid : c.id = some x) (hx : x ≠ "") (k : Met c s t) : t.WellIndexed := by
  cases k with
  | inserted hnew k =>
    apply h.inserted hid hx ?_ k
    intro hplain
    unfold existing? at hnew
    rw [hid, Option.bind_some, Option.or_eq_none_iff] at hnew
    rw [← h.keysOf_eq]
    exact keysOf_of_firstWithId_none hplain hnew.1
  | lost hkey hgone _ =>
    obtain ⟨d, hd⟩ := h.find?_of_existing? hid hkey
    rw [hgone] at hd
    cases hd
  | @merged key old _ hold _ k =>
    have hsame := id_reconcile_stored s.settings.add.preferLocal old c
    exact h.altered (mem_entries_of_find? hold) hsame k
  | @replaced key old rest hkey hold _ hrest k =>
    have hsame := id_reconcile_stored s.settings.add.preferLocal old c
    have hrested := h.removed (mem_entries_of_find? hold) hsame hrest
    have hin := (id_reconcile_incoming s.settings.add.preferLocal old c).trans hid
    apply hrested.inserted hin hx ?_ k
    intro hplain
    rw [hrest.rules.settings] at hplain
    exact h.keysNamed_of_removed hplain hid hkey hrest

theorem WellIndexed.step {s t : Store} (h : s.WellIndexed) (k : Step s t) : t.WellIndexed := by
  cases k with
  | edit k => exact h.edit k
  | @add c hc =>
    rcases s.add_cases c with k | ⟨x, hid, -, k⟩
    · exact h.edits k
    · have hsame := (sameSource_foldl_applyPatch (s.patchesFor x) c).id
      refine h.met (hsame.trans hid) ?_ k
      intro heq
      obtain rfl := heq
      exact hc hid

theorem Reachable.wellIndexed {settings : Settings} {reader : Reader} (hr : reader.Proper)
    {s : Store} (h : Reachable settings reader s) : s.WellIndexed :=
  h.induction hr (wellIndexed_new settings reader) fun _ _ k hs => hs.step k

theorem WellIndexed.named_component {s : Store} (h : s.WellIndexed) {c : Component}
    (hc : c ∈ s.components) : ∃ x, c.id = some x ∧ x ≠ "" := by
  obtain ⟨r, hrec, rfl⟩ := List.mem_map.1 hc
  exact h.named _ (List.mem_map_of_mem hrec)

theorem WellIndexed.keysOf_eq_keysWhere {s : Store} (h : s.WellIndexed) (x : String) :
    s.keysOf x = s.keysWhere fun c => c.id == some x := by
  rw [h.keysOf_eq]
  unfold keysNamed entries
  rw [List.filter_map, List.map_map]
  rfl

theorem WellIndexed.byId_eq {s : Store} (h : s.WellIndexed) (x : String) :
    s.byId x = s.components.filter fun c => c.id == some x := by
  unfold byId components
  rw [h.keysOf_eq_keysWhere, keysWhere, h.keyed.resolve_filter, List.filter_map]
  rfl

/-- In every catalog that operations lead to, a query by ID answers all components with the ID in
their order, all components have an ID, and no ID has an empty bucket. Without unique IDs no two
components share an ID. -/
theorem byId_exact {settings : Settings} {reader : Reader} (hr : reader.Proper) {s : Store}
    (h : Reachable settings reader s) :
    (∀ x, s.byId x = s.components.filter fun c => c.id == some x) ∧
    (∀ x, (s.keysOf x).Nodup) ∧
    (∀ c ∈ s.components, ∃ x, c.id = some x ∧ x ≠ "") ∧
    (∀ x, s.keysById.get? x ≠ some []) ∧
    (settings.add.useUniqueId = false → ∀ x, (s.byId x).length ≤ 1) := by
  have hs := h.wellIndexed hr
  refine ⟨hs.byId_eq, ?_, fun c hc => hs.named_component hc, ?_, ?_⟩
  · intro x
    rw [hs.keysOf_eq]
    exact hs.keyed.nodup_keysNamed x
  · intro x
    rw [hs.buckets x, bucket]
    split
    · simp
    · rename_i hne
      simpa using hne
  · intro hplain x
    have hone := hs.single ((h.settings_eq hr).symm ▸ hplain) x
    rw [← hs.keysOf_eq] at hone
    exact Nat.le_trans (List.length_filterMap_le _ _) hone

/-- A tool that was built for an architecture. -/
def builtFor (arch : String) : Component :=
  (Component.ofId "org.example.Tool").addArchitecture arch

/-- Two builds of one tool, which unique IDs keep apart. -/
theorem byId_two_builds :
    Reader.any.Proper ∧
    (((new ⟨⟨true, false, false⟩, {}, ⟨["en"], 4, true, 3⟩⟩ Reader.any).run
      [.add (builtFor "x86_64"), .add (builtFor "aarch64")]).byId "org.example.Tool") =
      [builtFor "x86_64", builtFor "aarch64"] := by
  refine ⟨Reader.proper_any, ?_⟩
  have hproper : ∀ op ∈ [Operation.add (builtFor "x86_64"), .add (builtFor "aarch64")],
      op.Proper := by
    intro op hop
    simp only [List.mem_cons, List.not_mem_nil, or_false] at hop
    rcases hop with rfl | rfl
    · exact Component.proper_setId {} "org.example.Tool"
    · exact Component.proper_setId {} "org.example.Tool"
  have hreach : Reachable ⟨⟨true, false, false⟩, {}, ⟨["en"], 4, true, 3⟩⟩ Reader.any _ :=
    ⟨[.add (builtFor "x86_64"), .add (builtFor "aarch64")], hproper, rfl⟩
  rw [(byId_exact Reader.proper_any hreach).1]
  decide +kernel

end SoftwareCatalog.Store
