import SoftwareCatalog.Proofs.Store.Accounting

namespace SoftwareCatalog

theorem applyPatch_bare (c patch : Component) :
    applyPatch c.bare patch = (applyPatch c patch).bare := by
  have hmatches : patchMatches patch c.bare = patchMatches patch c := rfl
  unfold applyPatch
  rw [hmatches]
  split <;> rfl

theorem kept_bare (preferLocal : Bool) (c d : Component) :
    (reconcile preferLocal c.bare d).kept.bare = (reconcile preferLocal c d).kept.bare := by
  have hkind : c.bare.formatKind = c.formatKind := rfl
  have hpriority : c.bare.priority = c.priority := rfl
  unfold reconcile reconcileByPriority
  simp only [hkind, hpriority]
  split_ifs <;> rfl

namespace Store

variable {s t : Store} {x : String} {key : Nat} {c d : Component} {others : List (Nat × Component)}

/-- A description of the software with the ID `x`. -/
structure Describes (x : String) (c : Component) : Prop where
  id : c.id = some x
  mergeKind : c.mergeKind = .standalone

theorem Describes.isPatch {x : String} {c : Component} (h : Describes x c) :
    c.mergeKind.isPatch = false := by
  simp [h.mergeKind, MergeKind.isPatch]

theorem Describes.id_patched {x : String} {c : Component} (h : Describes x c) (s : Store) :
    (s.patched x c).id = some x :=
  (sameSource_foldl_applyPatch (s.patchesFor x) c).id.trans h.id

/-- No component has the ID `x`. -/
structure Vacant (s : Store) (x : String) : Prop where
  wellIndexed : s.WellIndexed
  free : s.keysOf x = []

/-- `c` is the only component with the ID `x`. It has the key `key`, to which its unique ID leads,
and stands in the order of records among `others`. -/
structure Sole (s : Store) (x : String) (key : Nat) (c : Component)
    (others : List (Nat × Component)) : Prop where
  wellIndexed : s.WellIndexed
  named : c.id = some x
  split : ∃ before after, s.entries = before ++ (key, c.bare) :: after ∧ before ++ after = others
  apart : ∀ e ∈ others, e.2.id ≠ some x
  leads : s.keyByUniqueId.get? c.uniqueId = some key

theorem WellIndexed.vacant (h : s.WellIndexed) (hnone : s.byId x = []) : s.Vacant x where
  wellIndexed := h
  free := by
    cases hkeys : s.keysOf x with
    | nil => rfl
    | cons k keys =>
      obtain ⟨d, hd, -⟩ := h.find?_of_keysOf (hkeys ▸ List.mem_cons_self)
      have hsome : d ∈ s.byId x := List.mem_filterMap.2 ⟨k, hkeys ▸ List.mem_cons_self, hd⟩
      rw [hnone] at hsome
      cases hsome

theorem Vacant.apart (h : s.Vacant x) : ∀ e ∈ s.entries, e.2.id ≠ some x := by
  intro e he hid
  have hin : e.1 ∈ keysNamed s.entries x := mem_keysNamed.2 ⟨e.2, he, hid⟩
  rw [← h.wellIndexed.keysOf_eq, h.free] at hin
  cases hin

theorem Vacant.existing? (h : s.Vacant x) (hplain : s.settings.add.useMergeHeuristic = false)
    (hid : c.id = some x) : s.existing? c = none := by
  unfold Store.existing? firstWithId
  rw [hid, Option.bind_some, h.free, hplain]
  simp

theorem WellIndexed.existing?_of_empty (h : s.WellIndexed) (hempty : s.entries = [])
    (c : Component) : s.existing? c = none := by
  have hnone (x : String) : s.keysOf x = [] := by
    rw [h.keysOf_eq, hempty]
    rfl
  unfold Store.existing? firstWithId
  cases c.id <;> simp [hnone]

namespace Sole

theorem mem (h : Sole s x key c others) : (key, c.bare) ∈ s.entries := by
  obtain ⟨before, after, heq, -⟩ := h.split
  rw [heq]
  exact List.mem_append_right _ List.mem_cons_self

theorem mem_others (h : Sole s x key c others) {e : Nat × Component} (he : e ∈ others) :
    e ∈ s.entries ∧ e.1 ≠ key := by
  obtain ⟨before, after, heq, hrest⟩ := h.split
  have hin : e ∈ s.entries := by
    rw [← hrest] at he
    rw [heq]
    rcases List.mem_append.1 he with he | he
    · exact List.mem_append_left _ he
    · exact List.mem_append_right _ (List.mem_cons_of_mem _ he)
  refine ⟨hin, ?_⟩
  intro hkey
  have hsame := h.wellIndexed.keyed.eq_of_key hin h.mem hkey
  apply h.apart e he
  rw [hsame]
  exact h.named

theorem keysOf (h : Sole s x key c others) : s.keysOf x = [key] := by
  obtain ⟨before, after, heq, hrest⟩ := h.split
  have hnone {es : List (Nat × Component)} (hes : ∀ e ∈ es, e ∈ others) :
      keysNamed es x = [] := by
    rw [List.eq_nil_iff_forall_not_mem]
    intro k hk
    obtain ⟨d, hd, hid⟩ := mem_keysNamed.1 hk
    exact h.apart _ (hes _ hd) hid
  have hcons : keysNamed ((key, c.bare) :: after) x = key :: keysNamed after x := by
    simp [keysNamed, h.named]
  rw [h.wellIndexed.keysOf_eq, heq, keysNamed_append, hcons,
    hnone fun e he => hrest ▸ List.mem_append_left _ he,
    hnone fun e he => hrest ▸ List.mem_append_right _ he]
  rfl

theorem find? (h : Sole s x key c others) : ∃ d, s.find? key = some d ∧ d.bare = c.bare :=
  h.wellIndexed.keyed.find?_of_mem h.mem

theorem congr (h : Sole s x key c others) (hbare : d.bare = c.bare) : Sole s x key d others where
  wellIndexed := h.wellIndexed
  named := by rw [← d.bare_id, hbare, c.bare_id, h.named]
  split := hbare ▸ h.split
  apart := h.apart
  leads := by rw [← d.bare_uniqueId, hbare, c.bare_uniqueId, h.leads]

/-- The component is the one answer to its ID, and an answer to its unique ID. -/
theorem found (h : Sole s x key c others) :
    ∃ d, s.byId x = [d] ∧ d.bare = c.bare ∧ s.byUniqueId d.uniqueId = some d := by
  obtain ⟨d, hd, hbare⟩ := h.find?
  refine ⟨d, ?_, hbare, ?_⟩
  · unfold Store.byId resolve
    rw [h.keysOf]
    simp [hd]
  · have huid : d.uniqueId = c.uniqueId := by
      rw [← d.bare_uniqueId, hbare, c.bare_uniqueId]
    unfold byUniqueId
    rw [huid, h.leads]
    exact hd

theorem components (h : Sole s x key c []) : ∃ d, s.components = [d] ∧ d.bare = c.bare := by
  obtain ⟨before, after, heq, hrest⟩ := h.split
  obtain ⟨rfl, rfl⟩ := List.append_eq_nil_iff.1 hrest
  obtain ⟨r, hr, hrec⟩ := List.map_eq_singleton_iff.1 heq
  refine ⟨r.component, ?_, congrArg Prod.snd hrec⟩
  unfold Store.components
  rw [hr]
  rfl

/-- A change in place leaves the order of records. -/
theorem altered (h : Sole s x key c others) (hid : d.id = some x)
    {g : Component → Component} (hg : g c.bare = d.bare) (k : Altered key g c.bare s t) :
    Sole t x key d others := by
  obtain ⟨before, after, heq, hrest⟩ := h.split
  have hstay {es : List (Nat × Component)} (hes : ∀ e ∈ es, e ∈ others) :
      es.map (alter key g) = es := by
    conv_rhs => rw [← List.map_id es]
    apply List.map_congr_left
    intro e he
    unfold alter
    rw [if_neg (h.mem_others (hes e he)).2, id]
  have hsame : (g c.bare).id = c.bare.id := by
    rw [hg, d.bare_id, c.bare_id, hid, h.named]
  refine ⟨h.wellIndexed.altered h.mem hsame k, hid, ⟨before, after, ?_, hrest⟩, h.apart, ?_⟩
  · have hown : alter key g (key, c.bare) = (key, d.bare) := by simp [alter, hg]
    rw [k.entries, heq, List.map_append, List.map_cons, hown,
      hstay fun e he => hrest ▸ List.mem_append_left _ he,
      hstay fun e he => hrest ▸ List.mem_append_right _ he]
  · rw [k.keyByUniqueId, hg, d.bare_uniqueId, if_pos rfl]

/-- Without its record the others are left. -/
theorem removed (h : Sole s x key c others) (hid : d.id = some x) (k : Removed key d s t) :
    t.Vacant x ∧ t.entries = others := by
  obtain ⟨before, after, heq, hrest⟩ := h.split
  have hsame : d.id = c.bare.id := hid.trans h.named.symm
  refine ⟨⟨h.wellIndexed.removed h.mem hsame k, ?_⟩, ?_⟩
  · unfold Store.keysOf TextMap.getD
    rw [k.keysById, if_pos hid, h.keysOf]
    simp [bucket]
  · have hstay : others.filter (·.1 ≠ key) = others := by
      apply List.filter_eq_self.2
      intro e he
      exact decide_eq_true (h.mem_others he).2
    rw [k.entries, heq, List.filter_append, List.filter_cons_of_neg (by simp),
      ← List.filter_append, hrest, hstay]

end Sole

theorem Vacant.inserted (h : s.Vacant x) (hid : c.id = some x) (hx : x ≠ "")
    (k : Inserted c s t) : Sole t x s.nextKey c s.entries where
  wellIndexed := by
    apply h.wellIndexed.inserted hid hx ?_ k
    intro _
    rw [← h.wellIndexed.keysOf_eq, h.free]
  named := hid
  split := ⟨s.entries, [], k.entries, List.append_nil _⟩
  apart := h.apart
  leads := by rw [k.keyByUniqueId, if_pos rfl]

/-- A component comes in as patches leave it where nothing else describes the same. -/
theorem Vacant.add (h : s.Vacant x) (hx : x ≠ "") (hc : Describes x c)
    (hnone : s.existing? (s.patched x c) = none) :
    Sole (s.add c) x s.nextKey (s.patched x c) s.entries := by
  cases s.met_add hc.id hc.isPatch with
  | inserted _ k => exact h.inserted (hc.id_patched s) hx k
  | lost hkey _ _ => rw [hnone] at hkey; cases hkey
  | merged hkey _ _ _ => rw [hnone] at hkey; cases hkey
  | replaced hkey _ _ _ _ => rw [hnone] at hkey; cases hkey

theorem Sole.existing? (h : Sole s x key c others) (hplain : s.settings.add.useUniqueId = false)
    (hid : d.id = some x) : s.existing? d = some key := by
  unfold Store.existing? firstWithId
  rw [hid, Option.bind_some, if_neg (by simp [hplain]), h.keysOf]
  rfl

/-- Without unique IDs a component meets the one that has its ID, and one of both stays. -/
theorem Sole.add (h : Sole s x key c others) (hplain : s.settings.add.useUniqueId = false)
    (hx : x ≠ "") (hd : Describes x d) :
    ∃ k, Sole (s.add d) x k
      (reconcile s.settings.add.preferLocal c (s.patched x d)).kept others := by
  have hpatched := hd.id_patched s
  have hmeets := h.existing? hplain hpatched
  obtain ⟨old, hold, hbare⟩ := h.find?
  have holdId : old.id = some x := by rw [← old.bare_id, hbare, c.bare_id, h.named]
  have hstored : (reconcile s.settings.add.preferLocal old (s.patched x d)).stored.id = some x :=
    (id_reconcile_stored ..).trans holdId
  have hincoming :
      (reconcile s.settings.add.preferLocal old (s.patched x d)).incoming.id = some x :=
    (id_reconcile_incoming ..).trans hpatched
  -- the stored record and `c` differ in attachments alone, so what stays of both is the same
  have hkept := kept_bare s.settings.add.preferLocal old (s.patched x d)
  rw [hbare, kept_bare] at hkept
  cases s.met_add hd.id hd.isPatch with
  | inserted hnone _ => rw [hmeets] at hnone; cases hnone
  | lost hkey hgone _ =>
    obtain rfl := Option.some.inj (hmeets.symm.trans hkey)
    rw [hold] at hgone
    cases hgone
  | @merged key' old' hkey hold' hstays k =>
    obtain rfl := Option.some.inj (hmeets.symm.trans hkey)
    obtain rfl := Option.some.inj (hold.symm.trans hold')
    rw [hbare] at k
    refine ⟨key, (h.altered hstored rfl k).congr ?_⟩
    rw [hkept, Reconciled.kept_of_stored hstays]
  | @replaced key' old' rest hkey hold' hgoes hrest k =>
    obtain rfl := Option.some.inj (hmeets.symm.trans hkey)
    obtain rfl := Option.some.inj (hold.symm.trans hold')
    obtain ⟨hvacant, hentries⟩ := h.removed hstored hrest
    refine ⟨_, (hentries ▸ hvacant.inserted hincoming hx k).congr ?_⟩
    rw [hkept, Reconciled.kept_of_incoming hgoes]

theorem patchesFor_add_standalone (s : Store) (hc : Describes x c) (y : String) :
    (s.add c).patchesFor y = s.patchesFor y := by
  rw [patchesFor, s.patches_add_of_not hc.isPatch, ← patchesFor]

/-- A run of components with one ID leaves one, whatever came of each encounter. -/
theorem Sole.adds (h : Sole s x key c others) (hplain : s.settings.add.useUniqueId = false)
    (hnone : s.patchesFor x = []) (hx : x ≠ "") {ds : List Component}
    (hds : ∀ d ∈ ds, Describes x d) :
    ∃ k, Sole (ds.foldl Store.add s) x k
      (ds.foldl (fun c d => (reconcile s.settings.add.preferLocal c d).kept) c) others := by
  induction ds generalizing s c key with
  | nil => exact ⟨key, h⟩
  | cons d ds ih =>
    have hd := hds d List.mem_cons_self
    obtain ⟨k, hk⟩ := h.add hplain hx hd
    rw [patched_of_none hnone] at hk
    have hsettings := (s.setup_add d).settings
    have hnone' := (s.patchesFor_add_standalone hd x).trans hnone
    have hrest := ih hk (hsettings ▸ hplain) hnone' fun e he => hds e (List.mem_cons_of_mem d he)
    rw [hsettings] at hrest
    exact hrest

/-- The same of a catalog where the first of them meets nothing. -/
theorem Vacant.adds (h : s.Vacant x) (hplain : s.settings.add.useUniqueId = false)
    (hnone : s.patchesFor x = []) (hx : x ≠ "") {ds : List Component}
    (hds : ∀ d ∈ c :: ds, Describes x d) (hfree : s.existing? c = none) :
    ∃ k, Sole (ds.foldl Store.add (s.add c)) x k
      (ds.foldl (fun c d => (reconcile s.settings.add.preferLocal c d).kept) c) s.entries := by
  have hc := hds c List.mem_cons_self
  have hpatched : s.patched x c = c := patched_of_none hnone c
  have hfirst := h.add hx hc (hpatched.symm ▸ hfree)
  rw [hpatched] at hfirst
  have hsettings := (s.setup_add c).settings
  have hnone' := (s.patchesFor_add_standalone hc x).trans hnone
  have hrest := hfirst.adds (hsettings ▸ hplain) hnone' hx
    fun d hd => hds d (List.mem_cons_of_mem c hd)
  rw [hsettings] at hrest
  exact hrest

end Store

end SoftwareCatalog
