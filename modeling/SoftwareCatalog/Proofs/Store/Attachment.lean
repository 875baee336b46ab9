import SoftwareCatalog.Proofs.Component.Addon
import SoftwareCatalog.Proofs.Store.PrimaryIndex

namespace SoftwareCatalog

namespace Record

/-- Tokens stand beside the component and not in it as well. -/
def TokensApart (r : Record) : Prop := r.component.tokens = none

/-- A record as attaching and detaching leaves it: the attachments in `gone` are no longer there,
those in `come` may be new, and tokens stay where nothing was to be attached or detached, and only
where nothing was. -/
structure Relinked (gone come : String → Prop) (q r : Record) : Prop where
  key : r.key = q.key
  bare : r.component.bare = q.component.bare
  apart : q.TokensApart → r.TokensApart
  tokens : (r = q ∧ ∀ u ∈ q.component.addons, ¬ gone u) ∨ (r.tokens = none ∧ ∃ u, gone u ∨ come u)
  addons : ∀ u ∈ r.component.addons, (u ∈ q.component.addons ∧ ¬ gone u) ∨ come u

namespace Relinked

variable {gone come gone' come' : String → Prop} {q r r' : Record}

theorem refl (h : ∀ u ∈ q.component.addons, ¬ gone u) : Relinked gone come q q :=
  ⟨rfl, rfl, fun h => h, .inl ⟨rfl, h⟩, fun u hu => .inl ⟨hu, h u hu⟩⟩

theorem id (h : Relinked gone come q r) : r.component.id = q.component.id := by
  rw [← r.component.bare_id, h.bare, q.component.bare_id]

theorem mono (h : Relinked gone come q r) (hgone : ∀ u, gone' u → gone u)
    (hcome : ∀ u, come u → come' u) (hsome : (∃ u, gone u) → ∃ u, gone' u ∨ come' u) :
    Relinked gone' come' q r := by
  refine ⟨h.key, h.bare, h.apart, ?_, ?_⟩
  · rcases h.tokens with ⟨hsame, hno⟩ | ⟨hnone, u, hg | hnew⟩
    · exact .inl ⟨hsame, fun u hu hg => hno u hu (hgone u hg)⟩
    · exact .inr ⟨hnone, hsome ⟨u, hg⟩⟩
    · exact .inr ⟨hnone, u, .inr (hcome u hnew)⟩
  · intro u hu
    rcases h.addons u hu with ⟨hin, hno⟩ | hnew
    · exact .inl ⟨hin, fun hg => hno (hgone u hg)⟩
    · exact .inr (hcome u hnew)

/-- Attaching something more. -/
theorem attach (h : Relinked gone come q r) (k : Relinked (fun _ => False) come' r r')
    (hcome : ∀ u, come' u → come u) : Relinked gone come q r' := by
  refine ⟨k.key.trans h.key, k.bare.trans h.bare, fun hq => k.apart (h.apart hq), ?_, ?_⟩
  · rcases k.tokens with ⟨rfl, -⟩ | ⟨hnone, u, hno | hnew⟩
    · exact h.tokens
    · exact hno.elim
    · exact .inr ⟨hnone, u, .inr (hcome u hnew)⟩
  · intro u hu
    rcases k.addons u hu with ⟨hin, -⟩ | hnew
    · exact h.addons u hin
    · exact .inr (hcome u hnew)

end Relinked

theorem relinked_attach (addon : String) (r : Record) :
    Relinked (fun _ => False) (· = addon) r (r.attach addon) := by
  refine ⟨r.key_attach addon, r.bare_attach addon, ?_, ?_, ?_⟩
  · unfold attach
    split <;> exact id
  · unfold attach
    split
    · exact .inl ⟨rfl, fun _ _ => id⟩
    · exact .inr ⟨rfl, addon, .inr rfl⟩
  · intro u hu
    unfold attach at hu
    split at hu
    · exact .inl ⟨hu, id⟩
    · rcases List.mem_append.1 hu with hu | hu
      · exact .inl ⟨hu, id⟩
      · exact .inr (List.mem_singleton.1 hu)

theorem relinked_detach (addon : String) (r : Record) :
    Relinked (· = addon) (fun _ => False) r (r.detach addon) := by
  by_cases hin : addon ∈ r.component.addons
  · have hdetach : r.detach addon = r.replace
        { r.component with addons := r.component.addons.filter (· ≠ addon) } := if_pos hin
    refine ⟨r.key_detach addon, r.bare_detach addon, ?_, .inr ⟨?_, addon, .inl rfl⟩, ?_⟩
    · rw [hdetach]
      exact id
    · rw [hdetach]
      rfl
    · intro u hu
      rw [hdetach] at hu
      have hleft := List.mem_filter.1 hu
      exact .inl ⟨hleft.1, of_decide_eq_true hleft.2⟩
  · have hdetach : r.detach addon = r := if_neg hin
    rw [hdetach]
    apply Relinked.refl
    intro u hu heq
    exact hin (heq ▸ hu)

theorem relinked_detachAll (r : Record) :
    Relinked (fun _ => True) (fun _ => False) r r.detachAll := by
  by_cases hnone : r.component.addons = []
  · have hdetach : r.detachAll = r := if_pos hnone
    rw [hdetach]
    apply Relinked.refl
    rw [hnone]
    simp
  · have hdetach : r.detachAll = r.replace { r.component with addons := [] } := if_neg hnone
    refine ⟨r.key_detachAll, r.bare_detachAll, ?_, .inr ⟨?_, "", .inl trivial⟩, ?_⟩
    · rw [hdetach]
      exact id
    · rw [hdetach]
      rfl
    · rw [hdetach]
      simp [replace]

end Record

namespace Store

variable {s t : Store} {key : Nat} {c old : Component}

def TokensApart (s : Store) : Prop := ∀ r ∈ s.records, r.TokensApart

/-- The records with the IDs that an addon extends. -/
theorem WellIndexed.mem_extended_iff (h : s.WellIndexed) {r : Record} (hr : r ∈ s.records) :
    r.key ∈ c.extendedIds.flatMap s.keysOf ↔ c.Extends r.component := by
  have hentry : (r.key, r.component.bare) ∈ s.entries := List.mem_map_of_mem hr
  rw [List.mem_flatMap]
  constructor
  · intro hsome
    obtain ⟨x, hx, hkey⟩ := hsome
    rw [h.keysOf_eq] at hkey
    obtain ⟨d, hd, hid⟩ := mem_keysNamed.1 hkey
    rw [h.keyed.component_eq hd hentry] at hid
    exact ⟨x, hx, hid⟩
  · intro hextends
    obtain ⟨x, hx, hid⟩ := hextends
    refine ⟨x, hx, ?_⟩
    rw [h.keysOf_eq]
    exact mem_keysNamed.2 ⟨_, hentry, hid⟩

/-- What is said of the record before holds of the record after. -/
theorem WellIndexed.extended_iff (h : t.WellIndexed) {gone come : String → Prop} {q r : Record}
    (hr : r ∈ t.records) (k : q.Relinked gone come r) :
    q.key ∈ c.extendedIds.flatMap t.keysOf ↔ c.Extends q.component := by
  have hid : r.component.id = q.component.id := k.id
  rw [← k.key, h.mem_extended_iff hr]
  unfold Component.Extends
  rw [hid]

theorem relinked_link (s : Store) (c : Component) : ∀ r ∈ (s.link c).records, ∃ q ∈ s.records,
    q.Relinked (fun _ => False)
      (fun u => u = c.uniqueId ∧ q.key ∈ c.extendedIds.flatMap s.keysOf) r := by
  intro r hr
  obtain ⟨q, hq, rfl⟩ := List.mem_map.1 hr
  refine ⟨q, hq, ?_⟩
  split
  · rename_i hboth
    rw [Bool.and_eq_true, List.contains_iff_mem] at hboth
    exact (q.relinked_attach c.uniqueId).mono (fun _ => id) (fun u hu => ⟨hu, hboth.1⟩)
      fun ⟨_, hno⟩ => hno.elim
  · exact .refl fun _ _ => id

theorem relinked_unlink (s : Store) (ids : List String) (addon : String) :
    ∀ r ∈ (s.unlink ids addon).records, ∃ q ∈ s.records,
      q.Relinked (fun u => u = addon ∧ q.key ∈ ids.flatMap s.keysOf) (fun _ => False) r := by
  intro r hr
  obtain ⟨q, hq, rfl⟩ := List.mem_map.1 hr
  refine ⟨q, hq, ?_⟩
  split
  · rename_i hkey
    rw [List.contains_iff_mem] at hkey
    exact (q.relinked_detach addon).mono (fun u hu => hu.1) (fun _ => id)
      fun ⟨u, hu⟩ => ⟨u, .inl ⟨hu, hkey⟩⟩
  · rename_i hno
    rw [List.contains_iff_mem] at hno
    exact .refl fun _ _ hu => hno hu.2

theorem relinked_linked (s : Store) (c : Component) : ∀ r ∈ (s.linked c).records,
    ∃ q ∈ s.records, q.Relinked (fun _ => False)
      (fun u => c.kind = .addon ∧ u = c.uniqueId ∧ q.key ∈ c.extendedIds.flatMap s.keysOf) r := by
  intro r hr
  unfold linked at hr
  split at hr
  · rename_i hkind
    obtain ⟨q, hq, hattach⟩ := s.relinked_link c r hr
    exact ⟨q, hq, hattach.mono (fun _ => id) (fun u hu => ⟨hkind, hu⟩) fun ⟨_, hno⟩ => hno.elim⟩
  · exact ⟨r, hr, .refl fun _ _ => id⟩

theorem relinked_unlinked (s : Store) (c : Component) (previous : String) :
    ∀ r ∈ (s.unlinked c previous).records, ∃ q ∈ s.records, q.Relinked
      (fun u => c.kind = .addon ∧ u = previous ∧ q.key ∈ c.extendedIds.flatMap s.keysOf)
      (fun _ => False) r := by
  intro r hr
  unfold unlinked at hr
  split at hr
  · rename_i hkind
    obtain ⟨q, hq, hdetach⟩ := s.relinked_unlink c.extendedIds previous r hr
    exact ⟨q, hq, hdetach.mono (fun u hu => hu.2) (fun _ => id)
      fun ⟨u, hu⟩ => ⟨u, .inl ⟨hkind, hu⟩⟩⟩
  · rename_i hkind
    exact ⟨r, hr, .refl fun _ _ hu => hkind hu.1⟩

theorem records_unindex (s : Store) (key : Nat) (id : Option String) (u : String) :
    (s.unindex key id u).records = s.records := by
  obtain ⟨keyByUniqueId, hunindex⟩ := s.exists_unindex key id u
  rw [hunindex]

theorem records_renamed (s : Store) (key : Nat) (c : Component) (previous : String) :
    (s.renamed key c previous).records = s.records := by
  obtain ⟨keyByUniqueId, hrenamed⟩ := s.exists_renamed key c previous
  rw [hrenamed]

/-- A new addon is attached, be it to itself. -/
theorem relinked_insert (s : Store) (c : Component) : ∀ r ∈ (s.insert c).records,
    ∃ q, (q ∈ s.records ∨ q = .ofComponent s.nextKey c) ∧ q.Relinked (fun _ => False)
      (fun u => c.kind = .addon ∧ u = c.uniqueId ∧
        q.key ∈ c.extendedIds.flatMap (s.insert c).keysOf) r := by
  have hkeys : (s.insert c).keysOf = ((s.placed c).index s.nextKey c).keysOf :=
    (sameCatalog_linked _ c).sameRecords.keysOf
  intro r hr
  obtain ⟨q, hq, hattach⟩ := relinked_linked ((s.placed c).index s.nextKey c) c r hr
  rw [hkeys]
  refine ⟨q, ?_, hattach⟩
  rcases List.mem_append.1 hq with hq | hq
  · exact .inl hq
  · exact .inr (List.mem_singleton.1 hq)

/-- An addon moves from one unique ID to another one, or to the same. -/
theorem relinked_refresh (hc : s.find? key = some c) (previous : String) :
    ∀ r ∈ (s.refresh key previous).records, ∃ q ∈ s.records, q.Relinked
      (fun u => c.kind = .addon ∧ u = previous ∧
        q.key ∈ c.extendedIds.flatMap (s.refresh key previous).keysOf)
      (fun u => c.kind = .addon ∧ u = c.uniqueId ∧
        q.key ∈ c.extendedIds.flatMap (s.refresh key previous).keysOf) r := by
  have hunlinked := (s.sameCatalog_unlinked c previous).sameRecords.keysOf
  have hlinked := ((s.unlinked c previous).sameCatalog_linked c).sameRecords.keysOf
  have hrenamed := (((s.unlinked c previous).linked c).sameRecords_renamed key c previous).keysOf
  have hkeys : (s.refresh key previous).keysOf = s.keysOf := by
    rw [refresh_eq hc]
    exact hrenamed.trans (hlinked.trans hunlinked)
  rw [hkeys, refresh_eq hc]
  intro r hr
  change r ∈ (((s.unlinked c previous).linked c).renamed key c previous).records at hr
  rw [records_renamed] at hr
  obtain ⟨p, hp, hattach⟩ := relinked_linked _ c r hr
  obtain ⟨q, hq, hdetach⟩ := s.relinked_unlinked c previous p hp
  have hdetached : q.Relinked
      (fun u => c.kind = .addon ∧ u = previous ∧ q.key ∈ c.extendedIds.flatMap s.keysOf)
      (fun u => c.kind = .addon ∧ u = c.uniqueId ∧ q.key ∈ c.extendedIds.flatMap s.keysOf) p :=
    hdetach.mono (fun _ => id) (fun _ => False.elim) fun ⟨u, hu⟩ => ⟨u, .inl hu⟩
  refine ⟨q, hq, hdetached.attach hattach ?_⟩
  rw [hunlinked, hdetach.key]
  exact fun _ => id

/-- A removed addon is detached. -/
theorem relinked_removeKey (hc : s.find? key = some c) :
    ∀ r ∈ (s.removeKey key).records, ∃ q ∈ s.records, q.key ≠ key ∧ q.Relinked
      (fun u => c.kind = .addon ∧ u = c.uniqueId ∧
        q.key ∈ c.extendedIds.flatMap (s.removeKey key).keysOf)
      (fun _ => False) r := by
  rw [removeKey_eq hc]
  intro r hr
  have hrecords := (s.dropped key c).records_unindex key c.id c.uniqueId
  generalize (s.dropped key c).unindex key c.id c.uniqueId = freed at hr hrecords ⊢
  have hkeys : (((freed.unlinked c c.uniqueId).unnamed key c).announce
      (.removed c.uniqueId)).keysOf = freed.keysOf :=
    (freed.sameCatalog_unlinked c c.uniqueId).sameRecords.keysOf
  rw [hkeys]
  obtain ⟨q, hq, hdetach⟩ := freed.relinked_unlinked c c.uniqueId r hr
  rw [hrecords] at hq
  obtain ⟨hstored, hother⟩ := List.mem_filter.1 hq
  exact ⟨q, hstored, of_decide_eq_true hother, hdetach⟩

/-- The attachments that the addons of a catalog ask for. -/
def links (s : Store) : List (Nat × String) :=
  (s.components.filter fun c => c.kind = .addon).flatMap fun a =>
    ((a.extendedIds.flatMap s.keysOf).filter fun k => (s.find? k).any (·.hosts a)).map
      fun k => (k, a.uniqueId)

theorem mem_links {l : Nat × String} (h : l ∈ s.links) : ∃ r ∈ s.records,
    r.component.kind = .addon ∧ r.component.uniqueId = l.2 ∧
      l.1 ∈ r.component.extendedIds.flatMap s.keysOf := by
  obtain ⟨a, ha, hl⟩ := List.mem_flatMap.1 h
  obtain ⟨k, hk, rfl⟩ := List.mem_map.1 hl
  obtain ⟨hstored, hkind⟩ := List.mem_filter.1 ha
  obtain ⟨r, hr, rfl⟩ := List.mem_map.1 hstored
  exact ⟨r, hr, of_decide_eq_true hkind, rfl, List.mem_of_mem_filter hk⟩

theorem relinked_modify_attach (s : Store) (l : Nat × String) :
    ∀ r ∈ (s.modify l.1 (Record.attach l.2)).records, ∃ q ∈ s.records,
      q.Relinked (fun _ => False) (fun u => (q.key, u) = l) r := by
  intro r hr
  obtain ⟨q, hq, rfl⟩ := List.mem_map.1 hr
  refine ⟨q, hq, ?_⟩
  split
  · rename_i hkey
    exact (q.relinked_attach l.2).mono (fun _ => id) (fun u hu => by rw [hkey, hu])
      fun ⟨_, hno⟩ => hno.elim
  · exact .refl fun _ _ => id

/-- Attaching all addons anew leaves only what they ask for. -/
theorem relinked_attachAddons (s : Store) : ∀ r ∈ s.attachAddons.2.records, ∃ q ∈ s.records,
    q.Relinked (fun _ => True) (fun u => (q.key, u) ∈ s.links) r := by
  have hfold (ls : List (Nat × String)) (hls : ∀ l ∈ ls, l ∈ s.links) (t : Store)
      (ht : ∀ r ∈ t.records, ∃ q ∈ s.records,
        q.Relinked (fun _ => True) (fun u => (q.key, u) ∈ s.links) r) :
      ∀ r ∈ (ls.foldl (fun t l => t.modify l.1 (Record.attach l.2)) t).records, ∃ q ∈ s.records,
        q.Relinked (fun _ => True) (fun u => (q.key, u) ∈ s.links) r := by
    induction ls generalizing t with
    | nil => exact ht
    | cons l ls ih =>
      apply ih (fun l' h => hls l' (List.mem_cons_of_mem l h))
      intro r hr
      obtain ⟨p, hp, hattach⟩ := relinked_modify_attach t l r hr
      obtain ⟨q, hq, hbefore⟩ := ht p hp
      refine ⟨q, hq, hbefore.attach hattach ?_⟩
      intro u hu
      have hl := hls l List.mem_cons_self
      rwa [← hu, hbefore.key] at hl
  apply hfold s.links fun _ => id
  intro r hr
  obtain ⟨q, hq, rfl⟩ := List.mem_map.1 hr
  exact ⟨q, hq, q.relinked_detachAll.mono (fun _ => id) (fun _ => False.elim)
    fun ⟨u, hu⟩ => ⟨u, .inl hu⟩⟩

end Store

end SoftwareCatalog
