import Mathlib.Tactic.ByContra
import SoftwareCatalog.Proofs.Component.UniqueId
import SoftwareCatalog.Proofs.Store.PrimaryIndex

namespace SoftwareCatalog.Store

theorem mem_of_heir {s : Store} {id : Option String} {u : String} {k : Nat}
    (h : s.heir id u = some k) : ∃ c, (k, c) ∈ s.entries ∧ c.uniqueId = u := by
  have hany := List.find?_some h
  obtain ⟨c, hc, heq⟩ := (Option.any_eq_true _ _).1 hany
  refine ⟨c.bare, mem_entries_of_find? hc, ?_⟩
  rw [c.bare_uniqueId]
  exact beq_iff_eq.1 heq

theorem WellIndexed.heir_isSome {s : Store} (hs : s.WellIndexed) {k : Nat} {c : Component}
    (hc : (k, c) ∈ s.entries) : (s.heir c.id c.uniqueId).isSome = true := by
  obtain ⟨x, hid, -⟩ := hs.named _ hc
  have hid' : c.id = some x := hid
  unfold heir
  rw [hid', List.find?_isSome]
  refine ⟨k, ?_, ?_⟩
  · rw [Option.toList_some, List.flatMap_singleton, hs.keysOf_eq]
    exact mem_keysNamed.2 ⟨c, hc, hid⟩
  · obtain ⟨d, hd, rfl⟩ := hs.keyed.find?_of_mem hc
    rw [hd]
    simp

/-- A stored component that shares a unique ID of six segments is an heir. -/
theorem WellIndexed.heir_isSome_of_shared {s : Store} (hs : s.WellIndexed) {k : Nat}
    {c d : Component} (hc : (k, c) ∈ s.entries) (hd : ∃ y, d.id = some y ∧ y ≠ "")
    (heq : c.uniqueId = d.uniqueId) (hvalid : UniqueId.valid c.uniqueId = true) :
    (s.heir d.id c.uniqueId).isSome = true := by
  obtain ⟨x, hcx, hx⟩ := hs.named _ hc
  obtain ⟨y, hdy, hy⟩ := hd
  have hxy := Component.id_eq_of_uniqueId hcx hx hdy hy heq hvalid
  have hid : d.id = c.id := by
    rw [hdy, show c.id = some x from hcx, hxy]
  rw [hid]
  exact hs.heir_isSome hc

/-- A unique ID leads only to a record that has it, no key is yet to come, and each stored unique
ID of six segments leads somewhere. Where it leads may be gone. -/
structure UniquelyIndexed (s : Store) : Prop where
  wellIndexed : s.WellIndexed
  right : ∀ u k c, s.keyByUniqueId.get? u = some k → (k, c) ∈ s.entries → c.uniqueId = u
  fresh : ∀ u k, s.keyByUniqueId.get? u = some k → k < s.nextKey
  covered : ∀ k c, (k, c) ∈ s.entries → UniqueId.valid c.uniqueId = true →
    (s.keyByUniqueId.get? c.uniqueId).isSome = true

/-- The record that a unique ID leads to is there. -/
def Leads (s : Store) (u : String) : Prop :=
  ∀ k, s.keyByUniqueId.get? u = some k → ∃ c, (k, c) ∈ s.entries

theorem uniquelyIndexed_new (settings : Settings) (reader : Reader) :
    (new settings reader).UniquelyIndexed := by
  have hentries : (new settings reader).entries = [] := rfl
  have hindex : (new settings reader).keyByUniqueId = .empty := rfl
  refine ⟨wellIndexed_new settings reader, ?_, ?_, ?_⟩
  · simp [hentries]
  · simp [hindex]
  · simp [hentries]

theorem leads_new (settings : Settings) (reader : Reader) (u : String) :
    (new settings reader).Leads u := by
  have hindex : (new settings reader).keyByUniqueId = .empty := rfl
  unfold Leads
  simp [hindex]

variable {s t : Store}

theorem UniquelyIndexed.same (h : s.UniquelyIndexed) (k : SameIndices s t) : t.UniquelyIndexed where
  wellIndexed := h.wellIndexed.same k
  right := k.entries ▸ k.keyByUniqueId ▸ h.right
  fresh := k.nextKey ▸ k.keyByUniqueId ▸ h.fresh
  covered := k.entries ▸ k.keyByUniqueId ▸ h.covered

theorem Leads.same {u : String} (h : s.Leads u) (k : SameIndices s t) : t.Leads u := by
  unfold Leads
  rw [k.entries, k.keyByUniqueId]
  exact h

theorem UniquelyIndexed.altered (h : s.UniquelyIndexed) {key : Nat} {g : Component → Component}
    {old : Component} (hold : (key, old) ∈ s.entries) (hid : (g old).id = old.id)
    (k : Altered key g old s t) : t.UniquelyIndexed := by
  have hwell := h.wellIndexed.altered hold hid k
  have hmem {n : Nat} {c : Component} := k.mem_iff h.wellIndexed.keyed hold (n := n) (d := c)
  have hnew : (key, g old) ∈ t.entries := hmem.2 (.inl ⟨rfl, rfl⟩)
  refine ⟨hwell, ?_, ?_, ?_⟩
  · intro u n c hu hc
    rw [k.keyByUniqueId] at hu
    split at hu
    · rename_i hunew
      obtain rfl := Option.some.inj hu
      rw [hunew, show c = g old from hwell.keyed.component_eq hc hnew]
    · rename_i hunew
      split at hu
      · obtain ⟨d, hd, hdu⟩ := mem_of_heir hu
        rw [show c = d from hwell.keyed.component_eq hc hd]
        exact hdu
      · rename_i hmoved
        rcases hmem.1 hc with ⟨rfl, -⟩ | ⟨-, hc⟩
        · -- the old unique ID of the record would have been taken away
          have huold := h.right u n old hu hold
          exact absurd ⟨huold.symm, hu⟩ hmoved
        · exact h.right u n c hu hc
  · intro u n hu
    rw [k.keyByUniqueId] at hu
    split at hu
    · obtain rfl := Option.some.inj hu
      exact hwell.keyed.fresh _ hnew
    · split at hu
      · obtain ⟨d, hd, -⟩ := mem_of_heir hu
        exact hwell.keyed.fresh _ hd
      · rw [k.nextKey]
        exact h.fresh u n hu
  · intro n c hc hvalid
    rw [k.keyByUniqueId]
    split
    · rfl
    · rename_i hunew
      rcases hmem.1 hc with ⟨-, rfl⟩ | ⟨hn, hcs⟩
      · exact absurd rfl hunew
      · split
        · rename_i hmoved
          rw [hid]
          exact hwell.heir_isSome_of_shared hc (h.wellIndexed.named _ hold) hmoved.1 hvalid
        · exact h.covered n c hcs hvalid

theorem Leads.altered {u : String} (hu : s.Leads u) (h : s.UniquelyIndexed) {key : Nat}
    {g : Component → Component} {old : Component} (hold : (key, old) ∈ s.entries)
    (k : Altered key g old s t) : t.Leads u := by
  have hmem {n : Nat} {c : Component} := k.mem_iff h.wellIndexed.keyed hold (n := n) (d := c)
  intro n hn
  rw [k.keyByUniqueId] at hn
  split at hn
  · obtain rfl := Option.some.inj hn
    exact ⟨_, hmem.2 (.inl ⟨rfl, rfl⟩)⟩
  · split at hn
    · obtain ⟨d, hd, -⟩ := mem_of_heir hn
      exact ⟨d, hd⟩
    · obtain ⟨c, hc⟩ := hu n hn
      by_cases hkey : n = key
      · exact ⟨_, hmem.2 (.inl ⟨hkey, rfl⟩)⟩
      · exact ⟨c, hmem.2 (.inr ⟨hkey, hc⟩)⟩

/-- A record may go although its unique ID changed just before, as long as its ID did not. -/
theorem UniquelyIndexed.removed (h : s.UniquelyIndexed) {key : Nat} {old c : Component}
    (hold : (key, old) ∈ s.entries) (hid : c.id = old.id) (k : Removed key c s t) :
    t.UniquelyIndexed := by
  have hwell := h.wellIndexed.removed hold hid k
  refine ⟨hwell, ?_, ?_, ?_⟩
  · intro u n d hu hd
    rw [k.keyByUniqueId] at hu
    split at hu
    · obtain ⟨e, he, heu⟩ := mem_of_heir hu
      rw [show d = e from hwell.keyed.component_eq hd he]
      exact heu
    · exact h.right u n d hu (k.mem_iff.1 hd).2
  · intro u n hu
    rw [k.keyByUniqueId] at hu
    split at hu
    · obtain ⟨e, he, -⟩ := mem_of_heir hu
      exact hwell.keyed.fresh _ he
    · rw [k.nextKey]
      exact h.fresh u n hu
  · intro n d hd hvalid
    have hds := (k.mem_iff.1 hd).2
    rw [k.keyByUniqueId]
    split
    · rename_i hmoved
      have hnamed : ∃ y, c.id = some y ∧ y ≠ "" := hid ▸ h.wellIndexed.named _ hold
      exact hwell.heir_isSome_of_shared hd hnamed hmoved.1 hvalid
    · exact h.covered n d hds hvalid

theorem Leads.removed {u : String} (hu : s.Leads u) {key : Nat} {c : Component}
    (hkept : s.keyByUniqueId.get? u = some key → u = c.uniqueId) (k : Removed key c s t) :
    t.Leads u := by
  intro n hn
  rw [k.keyByUniqueId] at hn
  split at hn
  · obtain ⟨e, he, -⟩ := mem_of_heir hn
    exact ⟨e, he⟩
  · rename_i hstays
    obtain ⟨d, hd⟩ := hu n hn
    refine ⟨d, k.mem_iff.2 ⟨?_, hd⟩⟩
    intro heq
    obtain rfl := heq
    have huc := hkept hn
    exact hstays ⟨huc, huc ▸ hn⟩

theorem UniquelyIndexed.inserted (h : s.UniquelyIndexed) {c : Component} (hwell : t.WellIndexed)
    (k : Inserted c s t) : t.UniquelyIndexed := by
  refine ⟨hwell, ?_, ?_, ?_⟩
  · intro u n d hu hd
    rw [k.keyByUniqueId] at hu
    split at hu
    · rename_i huc
      obtain rfl := Option.some.inj hu
      rcases k.mem_iff.1 hd with hd | ⟨-, rfl⟩
      · exact absurd (h.wellIndexed.keyed.fresh _ hd) (Nat.lt_irrefl _)
      · exact huc.symm
    · rcases k.mem_iff.1 hd with hd | ⟨rfl, -⟩
      · exact h.right u n d hu hd
      · exact absurd (h.fresh u _ hu) (Nat.lt_irrefl _)
  · intro u n hu
    rw [k.keyByUniqueId] at hu
    rw [k.nextKey]
    split at hu
    · obtain rfl := Option.some.inj hu
      exact Nat.lt_succ_self _
    · exact Nat.lt_succ_of_lt (h.fresh u n hu)
  · intro n d hd hvalid
    rw [k.keyByUniqueId]
    split
    · rfl
    · rename_i hne
      rcases k.mem_iff.1 hd with hd | ⟨-, rfl⟩
      · exact h.covered n d hd hvalid
      · exact absurd rfl hne

theorem Leads.inserted {u : String} {c : Component}
    (hu : u ≠ c.uniqueId → s.Leads u) (k : Inserted c s t) : t.Leads u := by
  intro n hn
  rw [k.keyByUniqueId] at hn
  split at hn
  · obtain rfl := Option.some.inj hn
    exact ⟨_, k.mem_iff.2 (.inr ⟨rfl, rfl⟩)⟩
  · rename_i hne
    obtain ⟨d, hd⟩ := hu hne n hn
    exact ⟨d, k.mem_iff.2 (.inl hd)⟩

theorem UniquelyIndexed.edit (h : s.UniquelyIndexed) (k : Edit s t) : t.UniquelyIndexed := by
  cases k with
  | same k => exact h.same k
  | altered hold hid k => exact h.altered hold hid k
  | removed hold hid _ k => exact h.removed hold hid k

theorem Leads.edit {u : String} (hu : s.Leads u) (h : s.UniquelyIndexed) (k : Edit s t) :
    t.Leads u := by
  cases k with
  | same k => exact hu.same k
  | altered hold _ k => exact hu.altered h hold k
  | removed hold _ huid k =>
    apply hu.removed ?_ k
    intro hkey
    rw [huid]
    exact (h.right u _ _ hkey hold).symm

theorem UniquelyIndexed.edits (h : s.UniquelyIndexed) (k : Edits s t) : t.UniquelyIndexed := by
  induction k with
  | refl => exact h
  | tail _ k ih => exact ih.edit k

theorem Leads.edits {u : String} (hu : s.Leads u) (h : s.UniquelyIndexed) (k : Edits s t) :
    t.Leads u := by
  induction k with
  | refl => exact hu
  | tail hs k ih => exact ih.edit (h.edits hs) k

/-- A unique ID leads to the record of a launcher that gives way to metadata, and neither the
merged launcher nor the merged metadata has it any longer. -/
structure Lost (s : Store) (c : Component) (u : String) (key : Nat) (old : Component) : Prop where
  existing : s.existing? c = some key
  found : s.find? key = some old
  meets : LauncherMeets old c
  leads : s.keyByUniqueId.get? u = some key
  stored : (old.mergeWith twoWay c).1.uniqueId ≠ u
  incoming : (old.mergeWith twoWay c).2.uniqueId ≠ u

/-- Adding a component leaves a unique ID leading to a record that is gone. -/
def Strands (s : Store) (c : Component) (u : String) : Prop :=
  ∃ id key old, c.id = some id ∧ c.mergeKind = .standalone ∧ Lost s (s.patched id c) u key old

theorem UniquelyIndexed.met (h : s.UniquelyIndexed) {c : Component} (hwell : t.WellIndexed)
    (k : Met c s t) : t.UniquelyIndexed := by
  cases k with
  | inserted _ k => exact h.inserted hwell k
  | lost _ _ k => exact h.inserted hwell k
  | @merged key old _ hold _ k =>
    exact h.altered (mem_entries_of_find? hold)
      (id_reconcile_stored s.settings.add.preferLocal old c) k
  | @replaced key old rest _ hold _ hrest k =>
    have hrested := h.removed (mem_entries_of_find? hold)
      (id_reconcile_stored s.settings.add.preferLocal old c) hrest
    exact hrested.inserted hwell k

theorem Leads.met {u : String} (hu : s.Leads u) (h : s.UniquelyIndexed) {c : Component}
    (k : Met c s t) (hkept : ∀ key old, ¬ Lost s c u key old) : t.Leads u := by
  cases k with
  | inserted _ k => exact Leads.inserted (fun _ => hu) k
  | lost _ _ k => exact Leads.inserted (fun _ => hu) k
  | merged _ hold _ k => exact hu.altered h (mem_entries_of_find? hold) k
  | @replaced key old rest hkey hold hgoes hrest k =>
    apply Leads.inserted ?_ k
    intro hincoming
    apply hu.removed ?_ hrest
    intro hleads
    have huold : old.bare.uniqueId = u := h.right u key _ hleads (mem_entries_of_find? hold)
    rcases stored_reconcile_of_gone _ _ _ hgoes with hsame | hmeets
    · rw [hsame, ← old.bare_uniqueId, huold]
    · rw [reconcile_of_launcherMeets _ hmeets] at hincoming ⊢
      by_contra hstored
      exact hkept key old ⟨hkey, hold, hmeets, hleads, Ne.symm hstored, Ne.symm hincoming⟩

/-- Where a component strands a unique ID, this leads to a record that is gone. -/
theorem Lost.not_leads {u : String} {c : Component} {key : Nat} {old : Component}
    (hs : s.WellIndexed) (hlost : Lost s c u key old) (k : Met c s t) : ¬ t.Leads u := by
  have hreconcile := reconcile_of_launcherMeets s.settings.add.preferLocal hlost.meets
  have hkeys := hlost.existing
  have hfound := hlost.found
  cases k with
  | inserted hnew _ => rw [hkeys] at hnew; cases hnew
  | lost hkey hgone _ =>
    obtain rfl := Option.some.inj (hkeys.symm.trans hkey)
    rw [hfound] at hgone
    cases hgone
  | merged hkey hold hstays _ =>
    obtain rfl := Option.some.inj (hkeys.symm.trans hkey)
    obtain rfl := Option.some.inj (hfound.symm.trans hold)
    rw [hreconcile] at hstays
    cases hstays
  | @replaced _ _ rest hkey hold _ hrest k =>
    obtain rfl := Option.some.inj (hkeys.symm.trans hkey)
    obtain rfl := Option.some.inj (hfound.symm.trans hold)
    rw [hreconcile] at hrest k
    have hrestLeads : rest.keyByUniqueId.get? u = some key := by
      rw [hrest.keyByUniqueId, if_neg]
      · exact hlost.leads
      · exact fun hboth => hlost.stored hboth.1.symm
    have hleads : t.keyByUniqueId.get? u = some key := by
      rw [k.keyByUniqueId, if_neg]
      · exact hrestLeads
      · exact fun heq => hlost.incoming heq.symm
    intro hall
    obtain ⟨d, hd⟩ := hall key hleads
    rcases k.mem_iff.1 hd with hrested | ⟨heq, -⟩
    · exact (hrest.mem_iff.1 hrested).1 rfl
    · -- the key of the new record was not given before
      have hlt := hs.keyed.fresh _ (mem_entries_of_find? hfound)
      rw [hrest.nextKey] at heq
      omega

theorem UniquelyIndexed.add (h : s.UniquelyIndexed) {c : Component} (hc : c.Proper) :
    (s.add c).UniquelyIndexed := by
  rcases s.add_cases c with k | ⟨id, -, -, k⟩
  · exact h.edits k
  · exact h.met (h.wellIndexed.step (.add hc)) k

theorem UniquelyIndexed.adds (h : s.UniquelyIndexed) {cs : List Component}
    (hcs : ∀ c ∈ cs, c.Proper) : (cs.foldl Store.add s).UniquelyIndexed := by
  induction cs generalizing s with
  | nil => exact h
  | cons c cs ih =>
    obtain ⟨hc, hrest⟩ := List.forall_mem_cons.1 hcs
    exact ih (h.add hc) hrest

theorem UniquelyIndexed.step (h : s.UniquelyIndexed) (k : Step s t) : t.UniquelyIndexed := by
  cases k with
  | edit k => exact h.edit k
  | add hc => exact h.add hc

theorem Reachable.uniquelyIndexed {settings : Settings} {reader : Reader} (hr : reader.Proper)
    (h : Reachable settings reader s) : s.UniquelyIndexed :=
  h.induction hr (uniquelyIndexed_new settings reader) fun _ _ k hs => hs.step k

/-- Adding a component leaves the way from a unique ID intact unless it strands it. -/
theorem leads_add_iff (h : s.UniquelyIndexed) {u : String} (hu : s.Leads u) (c : Component) :
    (s.add c).Leads u ↔ ¬ Strands s c u := by
  constructor
  · intro hleads hsome
    obtain ⟨id, key, old, hid, hkind, hlost⟩ := hsome
    have hpatch : c.mergeKind.isPatch = false := by simp [hkind, MergeKind.isPatch]
    exact hlost.not_leads h.wellIndexed (met_add s hid hpatch) hleads
  · intro hkept
    rcases s.add_cases c with k | ⟨id, hid, hpatch, k⟩
    · exact hu.edits h k
    · apply hu.met h k
      intro key old hlost
      have hkind : c.mergeKind = .standalone := MergeKind.isPatch_eq_false_iff.1 hpatch
      exact hkept ⟨id, key, old, hid, hkind, hlost⟩

end SoftwareCatalog.Store
