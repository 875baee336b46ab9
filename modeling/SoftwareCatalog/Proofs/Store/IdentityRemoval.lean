import Mathlib.Data.Multiset.AddSub
import SoftwareCatalog.Proofs.Component.Identity
import SoftwareCatalog.Proofs.Store.Removal
import SoftwareCatalog.Proofs.Store.UniqueIdQuery

namespace SoftwareCatalog.Store

variable {s t : Store} {c d e : Component} {key : Nat}

/-- `t` has lost one record of `s`, that of `d`. The others are left in their order as they are, but
for attachments, and patches are left as well. -/
structure Without (d : Component) (s t : Store) : Prop where
  components : ∃ front rear, s.components = front ++ d :: rear ∧
    t.components.map Component.bare = (front ++ rear).map Component.bare
  patches : t.patches = s.patches

theorem Keyed.without_removeKey (hs : s.Keyed) (hd : s.find? key = some d) :
    Without d s (s.removeKey key) := by
  refine ⟨?_, s.patches_removeKey key⟩
  obtain ⟨front, rear, hsplit, hleft⟩ := hs.split_filter (mem_entries_of_find? hd)
  -- the entries come from the records, so these split in the same place
  obtain ⟨before, rest, hrecords, hbefore, hrest⟩ := List.map_eq_append_iff.1 hsplit
  obtain ⟨r, after, rfl, hr, hafter⟩ := List.map_eq_cons_iff.1 hrest
  have hkey : r.key = key := congrArg Prod.fst hr
  have hstored : r ∈ s.records := by
    rw [hrecords]
    exact List.mem_append_right before List.mem_cons_self
  have hcomponent : r.component = d := by
    have hfound := hs.find?_record hstored
    rw [hkey, hd] at hfound
    exact (Option.some.inj hfound).symm
  refine ⟨before.map (·.component), after.map (·.component), ?_, ?_⟩
  · rw [Store.components, hrecords, List.map_append, List.map_cons, hcomponent]
  · rw [bare_components, entries_removeKey, hleft, ← hbefore, ← hafter]
    simp [Function.comp_def]

/-- But for attachments, at most one description can be the one that is lost. -/
theorem Without.bare_eq (h : Without d s t) (k : Without e s t) : d.bare = e.bare := by
  have hlost {f : Component} (hf : Without f s t) :
      (s.components.map Component.bare : Multiset Component) =
        f.bare ::ₘ (t.components.map Component.bare : Multiset Component) := by
    obtain ⟨front, rear, hsplit, hleft⟩ := hf.components
    rw [hsplit, hleft, Multiset.cons_coe, Multiset.coe_eq_coe]
    simp only [List.map_append, List.map_cons]
    exact List.perm_middle
  exact (Multiset.cons_inj_left _).1 ((hlost h).symm.trans (hlost k))

/-- The component that a removal takes for the one that is meant. -/
def target? (s : Store) (c : Component) : Option Component := (s.keyOf? c).bind s.find?

theorem remove_of_target_none (h : s.target? c = none) : s.remove c = (false, s) := by
  unfold target? at h
  unfold remove
  cases hkey : s.keyOf? c with
  | none => rfl
  | some key =>
    rw [hkey, Option.bind_some] at h
    simp only [h, Option.isSome_none, removeKey_of_none h]

theorem Keyed.remove_of_target (hs : s.Keyed) (h : s.target? c = some d) :
    (s.remove c).1 = true ∧ Without d s (s.remove c).2 := by
  obtain ⟨key, hkey, hd⟩ := Option.bind_eq_some_iff.1 h
  unfold remove
  simp only [hkey, hd, Option.isSome_some, true_and]
  exact hs.without_removeKey hd

theorem mem_components_of_target (h : s.target? c = some d) : d ∈ s.components := by
  obtain ⟨key, -, hd⟩ := Option.bind_eq_some_iff.1 h
  exact mem_components_of_find? hd

theorem target?_of_indexed (h : s.keyByUniqueId.get? c.uniqueId = some key) :
    s.target? c = s.find? key := by
  unfold target? keyOf?
  rw [h, Option.some_or, Option.bind_some]

theorem target?_of_nameless (h : s.keyByUniqueId.get? c.uniqueId = none) (hid : c.id = none) :
    s.target? c = none := by
  unfold target? keyOf?
  rw [h, hid]
  rfl

/-- Where the unique ID is not indexed, the records with the ID are searched for the identity. -/
theorem sameIdentity_of_target (h : s.keyByUniqueId.get? c.uniqueId = none)
    (htarget : s.target? c = some d) : d.sameIdentity c = true := by
  obtain ⟨key, hkey, hd⟩ := Option.bind_eq_some_iff.1 htarget
  unfold keyOf? at hkey
  rw [h, Option.none_or] at hkey
  obtain ⟨x, -, hfound⟩ := Option.bind_eq_some_iff.1 hkey
  have hany := List.find?_some hfound
  simpa [hd] using hany

theorem WellIndexed.target_of_alike (hs : s.WellIndexed)
    (h : s.keyByUniqueId.get? c.uniqueId = none) {x : String} (hid : c.id = some x)
    (hd : d ∈ s.components) (halike : d.sameIdentity c = true) : (s.target? c).isSome = true := by
  obtain ⟨r, hr, rfl⟩ := List.mem_map.1 hd
  obtain ⟨y, hy, -⟩ := hs.named _ (List.mem_map_of_mem hr)
  have hxy : y = x := by
    by_contra hne
    have hid' : r.component.id = some y := hy
    have hother := Component.not_sameIdentity_of_id hid' hid hne
    rw [halike] at hother
    cases hother
  have hmem : r.key ∈ s.keysOf x := by
    rw [hs.keysOf_eq]
    exact mem_keysNamed.2 ⟨_, List.mem_map_of_mem hr, hxy ▸ hy⟩
  have hstored := hs.keyed.find?_record hr
  have hsome : ((s.keysOf x).find? fun k => (s.find? k).any (·.sameIdentity c)).isSome = true :=
    List.find?_isSome.2 ⟨r.key, hmem, by rw [hstored]; exact halike⟩
  obtain ⟨key, hkey⟩ := Option.isSome_iff_exists.1 hsome
  have htarget : s.target? c = s.find? key := by
    unfold target? keyOf?
    rw [h, Option.none_or, hid, Option.bind_some, hkey, Option.bind_some]
  have hany := List.find?_some hkey
  obtain ⟨e, he, -⟩ := (Option.any_eq_true _ _).1 hany
  rw [htarget, he]
  rfl

/-- Of the records that describe a component one goes, or nothing changes if there is none. -/
structure RemovesAlike (s : Store) (c : Component) : Prop where
  present : (∃ d ∈ s.components, d.sameIdentity c = true) →
    (s.remove c).1 = true ∧ ∃ d, d.sameIdentity c = true ∧ Without d s (s.remove c).2
  absent : (∀ d ∈ s.components, d.sameIdentity c = false) → s.remove c = (false, s)

theorem removesAlike_of_target_none (h : s.target? c = none) :
    RemovesAlike s c ↔ ¬ ∃ d ∈ s.components, d.sameIdentity c = true := by
  have hremove := remove_of_target_none h
  constructor
  · intro halike hsome
    have htrue := (halike.present hsome).1
    rw [hremove] at htrue
    cases htrue
  · intro hno
    exact ⟨fun hsome => absurd hsome hno, fun _ => hremove⟩

theorem Keyed.removesAlike_of_target (hs : s.Keyed) (h : s.target? c = some d) :
    RemovesAlike s c ↔ d.sameIdentity c = true := by
  obtain ⟨htrue, hwithout⟩ := hs.remove_of_target h
  constructor
  · intro halike
    by_cases hsome : ∃ e ∈ s.components, e.sameIdentity c = true
    · obtain ⟨-, e, he, hwithout'⟩ := halike.present hsome
      have hbare := hwithout.bare_eq hwithout'
      have hsame : d.bare.sameIdentity c = true := by
        rw [hbare]
        exact he
      exact hsame
    · have hnone : ∀ e ∈ s.components, e.sameIdentity c = false := by simpa using hsome
      rw [halike.absent hnone] at htrue
      cases htrue
  · intro hd
    refine ⟨fun _ => ⟨htrue, d, hd, hwithout⟩, fun hnone => ?_⟩
    rw [hnone d (mem_components_of_target h)] at hd
    cases hd

/-- Why a removal does not go by identity: the unique ID leads to a record that is told apart from
the component, or to one that is gone while others describe the component, or nothing is searched for
a component that has no ID. -/
inductive Misses (s : Store) (c : Component) : Prop
  | apart {key : Nat} {d : Component} (hkey : s.keyByUniqueId.get? c.uniqueId = some key)
      (hd : s.find? key = some d) (hother : d.sameIdentity c = false)
  | gone {key : Nat} (hkey : s.keyByUniqueId.get? c.uniqueId = some key)
      (hgone : s.find? key = none) (halike : ∃ d ∈ s.components, d.sameIdentity c = true)
  | nameless (hkey : s.keyByUniqueId.get? c.uniqueId = none) (hid : c.id = none)
      (halike : ∃ d ∈ s.components, d.sameIdentity c = true)

theorem Misses.not_removesAlike (h : Misses s c) (hs : s.Keyed) : ¬ RemovesAlike s c := by
  intro halike
  cases h with
  | apart hkey hd hother =>
    have htarget := (target?_of_indexed hkey).trans hd
    rw [(hs.removesAlike_of_target htarget).1 halike] at hother
    cases hother
  | gone hkey hgone hsome =>
    have htarget := (target?_of_indexed hkey).trans hgone
    exact (removesAlike_of_target_none htarget).1 halike hsome
  | nameless hkey hid hsome =>
    exact (removesAlike_of_target_none (target?_of_nameless hkey hid)).1 halike hsome

theorem WellIndexed.removesAlike (hs : s.WellIndexed) (h : ¬ Misses s c) : RemovesAlike s c := by
  cases htarget : s.target? c with
  | none =>
    refine (removesAlike_of_target_none htarget).2 fun hsome => h ?_
    cases hkey : s.keyByUniqueId.get? c.uniqueId with
    | some key => exact .gone hkey ((target?_of_indexed hkey).symm.trans htarget) hsome
    | none =>
      cases hid : c.id with
      | none => exact .nameless hkey hid hsome
      | some x =>
        obtain ⟨d, hd, halike⟩ := hsome
        have hfound := hs.target_of_alike hkey hid hd halike
        rw [htarget] at hfound
        cases hfound
  | some d =>
    rw [hs.keyed.removesAlike_of_target htarget]
    cases hkey : s.keyByUniqueId.get? c.uniqueId with
    | none => exact sameIdentity_of_target hkey htarget
    | some key =>
      by_contra hother
      have hd := (target?_of_indexed hkey).symm.trans htarget
      exact h (.apart hkey hd (Bool.eq_false_iff.2 hother))

/-- A removal goes by identity if and only if it does not miss. In any case nothing goes, or a single
record that has the unique ID of the component or describes the same. -/
theorem removesAlike_iff {settings : Settings} {reader : Reader} (hr : reader.Proper)
    (h : Reachable settings reader s) (c : Component) :
    (RemovesAlike s c ↔ ¬ Misses s c) ∧
    (s.remove c = (false, s) ∨ (s.remove c).1 = true ∧
      ∃ d, (d.uniqueId = c.uniqueId ∨ d.sameIdentity c = true) ∧ Without d s (s.remove c).2) := by
  have hs := h.uniquelyIndexed hr
  have hindexed := hs.wellIndexed
  constructor
  · constructor
    · exact fun halike hmisses => hmisses.not_removesAlike hindexed.keyed halike
    · exact hindexed.removesAlike
  · cases htarget : s.target? c with
    | none => exact .inl (remove_of_target_none htarget)
    | some d =>
      obtain ⟨htrue, hwithout⟩ := hindexed.keyed.remove_of_target htarget
      refine .inr ⟨htrue, d, ?_, hwithout⟩
      cases hkey : s.keyByUniqueId.get? c.uniqueId with
      | none => exact .inr (sameIdentity_of_target hkey htarget)
      | some key =>
        have hd := (target?_of_indexed hkey).symm.trans htarget
        exact .inl (hs.right _ key d.bare hkey (mem_entries_of_find? hd))

/-- The build that was stored last can be removed. -/
theorem removesAlike_last_build :
    Reader.any.Proper ∧
    Reachable ⟨⟨true, false, false⟩, {}, ⟨["en"], 4, true, 3⟩⟩ Reader.any twoBuilds ∧
    RemovesAlike twoBuilds (builtFor "aarch64") := by
  refine ⟨Reader.proper_any, twoBuilds_reachable, ?_⟩
  refine (removesAlike_iff Reader.proper_any twoBuilds_reachable (builtFor "aarch64")).1.2 ?_
  have hindexed : twoBuilds.keyByUniqueId.get? (builtFor "aarch64").uniqueId = some 1 := by
    decide +kernel
  have hstored : twoBuilds.find? 1 = some (builtFor "aarch64") := by decide +kernel
  have halike : (builtFor "aarch64").sameIdentity (builtFor "aarch64") = true := by decide +kernel
  intro hmisses
  cases hmisses with
  | apart hkey hd hother =>
    obtain rfl := Option.some.inj (hindexed.symm.trans hkey)
    obtain rfl := Option.some.inj (hstored.symm.trans hd)
    rw [halike] at hother
    cases hother
  | gone hkey hgone _ =>
    obtain rfl := Option.some.inj (hindexed.symm.trans hkey)
    rw [hstored] at hgone
    cases hgone
  | nameless hkey _ _ =>
    rw [hindexed] at hkey
    cases hkey

/-- To remove the other one takes the build that was stored last, which is told apart from it. -/
theorem not_removesAlike_first_build :
    (∃ d ∈ twoBuilds.components, d.sameIdentity (builtFor "x86_64") = true) ∧
    (twoBuilds.remove (builtFor "x86_64")).2.components = [builtFor "x86_64"] ∧
    (builtFor "aarch64").sameIdentity (builtFor "x86_64") = false ∧
    ¬ RemovesAlike twoBuilds (builtFor "x86_64") := by
  have hindexed : twoBuilds.keyByUniqueId.get? (builtFor "x86_64").uniqueId = some 1 := by
    decide +kernel
  have hstored : twoBuilds.find? 1 = some (builtFor "aarch64") := by decide +kernel
  have hother : (builtFor "aarch64").sameIdentity (builtFor "x86_64") = false := by decide +kernel
  have hkeyed := (twoBuilds_reachable.wellIndexed Reader.proper_any).keyed
  refine ⟨by decide +kernel, by decide +kernel, hother, ?_⟩
  exact (Misses.apart hindexed hstored hother).not_removesAlike hkeyed

end SoftwareCatalog.Store
