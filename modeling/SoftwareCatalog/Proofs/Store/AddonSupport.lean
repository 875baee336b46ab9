import SoftwareCatalog.Proofs.Store.Freshness
import SoftwareCatalog.Proofs.Store.Operation
import SoftwareCatalog.Proofs.Store.Patching

namespace SoftwareCatalog

namespace Record

/-- A record as attaching and detaching leaves it keeps all attachments but those in `gone`. -/
structure Retains (gone : String → Prop) (q r : Record) : Prop where
  id : r.component.id = q.component.id
  key : r.key = q.key
  addons : ∀ u ∈ q.component.addons, ¬ gone u → u ∈ r.component.addons

namespace Retains

variable {gone gone' : String → Prop} {q r r' : Record}

theorem refl (q : Record) : Retains gone q q := ⟨rfl, rfl, fun _ hu _ => hu⟩

theorem trans (h : Retains gone q r) (k : Retains gone' r r') (hgone : ∀ u, gone' u → gone u) :
    Retains gone q r' :=
  ⟨k.id.trans h.id, k.key.trans h.key,
    fun u hu hno => k.addons u (h.addons u hu hno) fun hg => hno (hgone u hg)⟩

end Retains

theorem retains_attach (addon : String) (r : Record) :
    Retains (fun _ => False) r (r.attach addon) := by
  unfold attach
  split
  · exact .refl r
  · exact ⟨rfl, rfl, fun u hu _ => List.mem_append_left _ hu⟩

theorem retains_detach (addon : String) (r : Record) : Retains (· = addon) r (r.detach addon) := by
  unfold detach
  split
  · refine ⟨rfl, rfl, ?_⟩
    intro u hu hne
    exact List.mem_filter.2 ⟨hu, decide_eq_true hne⟩
  · exact .refl r

end Record

namespace Store

variable {s t : Store} {key : Nat} {c old : Component} {u : String}

theorem retains_linked (s : Store) (c : Component) : ∀ q ∈ s.records,
    ∃ r ∈ (s.linked c).records, q.Retains (fun _ => False) r := by
  intro q hq
  unfold linked
  split
  · refine ⟨_, List.mem_map_of_mem hq, ?_⟩
    split
    · exact q.retains_attach c.uniqueId
    · exact .refl q
  · exact ⟨q, hq, .refl q⟩

theorem retains_unlinked (s : Store) (c : Component) (previous : String) : ∀ q ∈ s.records,
    ∃ r ∈ (s.unlinked c previous).records, q.Retains
      (fun u => c.kind = .addon ∧ u = previous ∧ q.key ∈ c.extendedIds.flatMap s.keysOf) r := by
  intro q hq
  unfold unlinked
  split
  · rename_i hkind
    refine ⟨_, List.mem_map_of_mem hq, ?_⟩
    split
    · rename_i hkey
      rw [List.contains_iff_mem] at hkey
      have hdetach := q.retains_detach previous
      exact ⟨hdetach.id, hdetach.key,
        fun u hu hno => hdetach.addons u hu fun heq => hno ⟨hkind, heq, hkey⟩⟩
    · exact .refl q
  · exact ⟨q, hq, .refl q⟩

/-- What was attached to the other records or comes in attached stays so when a record comes in. -/
theorem retains_insert (s : Store) (c : Component) : ∀ q ∈ s.records ++ [.ofComponent s.nextKey c],
    ∃ r ∈ (s.insert c).records, q.Retains (fun _ => False) r :=
  retains_linked ((s.placed c).index s.nextKey c) c

theorem retains_refresh (hc : s.find? key = some c) (previous : String) : ∀ q ∈ s.records,
    ∃ r ∈ (s.refresh key previous).records, q.Retains
      (fun u => c.kind = .addon ∧ u = previous ∧ q.key ∈ c.extendedIds.flatMap s.keysOf) r := by
  intro q hq
  obtain ⟨p, hp, hdetach⟩ := s.retains_unlinked c previous q hq
  obtain ⟨r, hr, hattach⟩ := (s.unlinked c previous).retains_linked c p hp
  refine ⟨r, ?_, hdetach.trans hattach fun _ => False.elim⟩
  rw [refresh_eq hc]
  change r ∈ (((s.unlinked c previous).linked c).renamed key c previous).records
  rwa [records_renamed]

theorem retains_removeKey (hc : s.find? key = some c) : ∀ q ∈ s.records, q.key ≠ key →
    ∃ r ∈ (s.removeKey key).records, q.Retains (fun u => c.kind = .addon ∧ u = c.uniqueId) r := by
  intro q hq hne
  have hrecords := (s.dropped key c).records_unindex key c.id c.uniqueId
  rw [removeKey_eq hc]
  generalize (s.dropped key c).unindex key c.id c.uniqueId = freed at hrecords ⊢
  have hfreed : q ∈ freed.records := by
    rw [hrecords]
    exact List.mem_filter.2 ⟨hq, decide_eq_true hne⟩
  obtain ⟨r, hr, hdetach⟩ := freed.retains_unlinked c c.uniqueId q hfreed
  exact ⟨r, hr, hdetach.id, hdetach.key,
    fun u hu hno => hdetach.addons u hu fun hg => hno ⟨hg.1, hg.2.1⟩⟩

/-- Whatever is attached is a stored addon that extends what it is attached to. -/
def Supported (s : Store) : Prop :=
  ∀ c ∈ s.components, ∀ u ∈ c.addons, ∃ a ∈ s.components,
    a.kind = .addon ∧ a.uniqueId = u ∧ a.Extends c

instance (a c : Component) : Decidable (a.Extends c) :=
  inferInstanceAs (Decidable (∃ x ∈ a.extendedIds, c.id = some x))

instance (s : Store) : Decidable s.Supported :=
  inferInstanceAs (Decidable (∀ c ∈ s.components, ∀ u ∈ c.addons, ∃ a ∈ s.components,
    a.kind = .addon ∧ a.uniqueId = u ∧ a.Extends c))

theorem supports_iff : s.Supports c u ↔
    ∃ a ∈ s.components, a.kind = .addon ∧ a.uniqueId = u ∧ a.Extends c :=
  (mem_components (p := fun a => a.kind = .addon ∧ a.uniqueId = u ∧ a.Extends c)
    fun _ => Iff.rfl).symm

theorem supported_iff :
    s.Supported ↔ ∀ r ∈ s.records, ∀ u ∈ r.component.addons, s.Supports r.component u := by
  unfold Supported
  simp only [supports_iff]
  exact List.forall_mem_map

/-- A record of a changed catalog, with the one that it was before: what is attached to it is
supported if that was so before, and if each addon that extends it stays or is detached. -/
theorem supports_relinked {q₀ q r : Record} {gone come : String → Prop}
    (haddons : q.component.addons = q₀.component.addons)
    (hid : q.component.id = q₀.component.id) (k : q.Relinked gone come r)
    (h : ∀ u ∈ q₀.component.addons, s.Supports q₀.component u)
    (hgone : ∀ e ∈ s.entries, e.2.kind = .addon → e.2.Extends q₀.component →
      t.Supports q₀.component e.2.uniqueId ∨ gone e.2.uniqueId)
    (hcome : ∀ u, come u → t.Supports q₀.component u) :
    ∀ u ∈ r.component.addons, t.Supports r.component u := by
  have hsame : r.component.id = q₀.component.id := k.id.trans hid
  intro u hu
  rcases k.addons u hu with ⟨hin, hno⟩ | hnew
  · rw [haddons] at hin
    obtain ⟨e, he, hkind, rfl, hextends⟩ := h u hin
    exact ((hgone e he hkind hextends).resolve_right hno).congr hsame
  · exact (hcome u hnew).congr hsame

theorem Supports.insert (h : s.Supports old u) (c : Component) : (s.insert c).Supports old u := by
  obtain ⟨e, he, hsupports⟩ := h
  exact ⟨e, (inserted_insert s c).mem_iff.2 (.inl he), hsupports⟩

/-- A record of a catalog that one comes into, with the one that it was before: what becomes
attached is supported. -/
theorem supports_insert (hindexed : (s.insert c).WellIndexed) : ∀ r ∈ (s.insert c).records,
    ∃ q ∈ s.records ++ [.ofComponent s.nextKey c], r.component.id = q.component.id ∧
      ∀ u ∈ r.component.addons,
        u ∈ q.component.addons ∨ (s.insert c).Supports q.component u := by
  have hnew : (s.nextKey, c.bare) ∈ (s.insert c).entries :=
    (inserted_insert s c).mem_iff.2 (.inr ⟨rfl, rfl⟩)
  intro r hr
  obtain ⟨q, hq, hlink⟩ := relinked_insert s c r hr
  refine ⟨q, List.mem_append.2 (hq.imp_right List.mem_singleton.2), hlink.id, ?_⟩
  intro u hu
  rcases hlink.addons u hu with ⟨hin, -⟩ | ⟨hkind, rfl, hkey⟩
  · exact .inl hin
  · exact .inr ⟨_, hnew, hkind, rfl, (hindexed.extended_iff hr hlink).1 hkey⟩

/-- A record of a catalog in which one was changed in place, with the one that it was before: what
is attached stays supported if the changed record still extends it. -/
theorem supports_refresh (hs : s.WellIndexed) {f : Record → Record} {g : Component → Component}
    (hold : s.find? key = some old) (hc : (s.modify key f).find? key = some c)
    (hkey : ∀ q, (f q).key = q.key) (hf : ∀ q, q.component = old → (f q).component = c)
    (hid : c.id = old.id) (haddons : c.addons = old.addons) (hg : g old.bare = c.bare)
    (k : Altered key g old.bare s ((s.modify key f).refresh key old.uniqueId)) :
    ∀ r ∈ ((s.modify key f).refresh key old.uniqueId).records, ∃ q ∈ s.records,
      r.component.id = q.component.id ∧ r.key = q.key ∧
      (¬ c.Extends q.component → r.component.addons ⊆ q.component.addons) ∧
      ((old.kind = .addon → old.Extends q.component → c.kind = .addon ∧ c.Extends q.component) →
        (∀ u ∈ q.component.addons, s.Supports q.component u) →
        ∀ u ∈ r.component.addons,
          ((s.modify key f).refresh key old.uniqueId).Supports r.component u) := by
  have hentry := mem_entries_of_find? hold
  have hmem {n : Nat} {d : Component} := k.mem_iff hs.keyed hentry (n := n) (d := d)
  have hgid : (g old.bare).id = old.bare.id := by rw [hg]; exact hid
  have hindexed := hs.altered hentry hgid k
  have hnew := hmem.2 (.inl ⟨rfl, hg.symm⟩)
  intro r hr
  obtain ⟨q, hq, hlink⟩ := relinked_refresh hc old.uniqueId r hr
  obtain ⟨q₀, hq₀, rfl⟩ := List.mem_map.1 hq
  generalize hrework : (if q₀.key = key then f q₀ else q₀) = q at hlink
  have hsame : q.component.addons = q₀.component.addons ∧ q.component.id = q₀.component.id ∧
      q.key = q₀.key := by
    rw [← hrework]
    refine hs.keyed.of_changed hold hq₀ (p := fun q => q.component.addons = q₀.component.addons ∧
      q.component.id = q₀.component.id ∧ q.key = q₀.key) ⟨rfl, rfl, rfl⟩ ?_
    intro hq₀old
    rw [hf q₀ hq₀old, hq₀old]
    exact ⟨haddons, hid, hkey q₀⟩
  have hextended : q.key ∈ c.extendedIds.flatMap
      ((s.modify key f).refresh key old.uniqueId).keysOf ↔ c.Extends q₀.component := by
    rw [hindexed.extended_iff hr hlink]
    unfold Component.Extends
    rw [hsame.2.1]
  refine ⟨q₀, hq₀, hlink.id.trans hsame.2.1, hlink.key.trans hsame.2.2, ?_, ?_⟩
  · intro hno u hu
    rcases hlink.addons u hu with ⟨hin, -⟩ | hcomes
    · exact hsame.1 ▸ hin
    · exact absurd (hextended.1 hcomes.2.2) hno
  · intro hupholds hsupported
    refine supports_relinked hsame.1 hsame.2.1 hlink hsupported ?_ ?_
    · intro e he hkind hextends
      by_cases hekey : e.1 = key
      · -- the changed addon itself is detached by its old unique ID before it is attached again
        obtain rfl : e = (key, old.bare) := hs.keyed.eq_of_key he hentry hekey
        obtain ⟨hckind, hcextends⟩ := hupholds hkind hextends
        exact .inr ⟨hckind, rfl, hextended.2 hcextends⟩
      · exact .inl ⟨e, hmem.2 (.inr ⟨hekey, he⟩), hkind, rfl, hextends⟩
    · rintro u ⟨hkind, rfl, hqkey⟩
      exact ⟨_, hnew, hkind, rfl, hextended.1 hqkey⟩

theorem supports_update (hs : s.WellIndexed) (hold : s.find? key = some old)
    {f : Component → Component} (hid : (f old).id = old.id)
    (haddons : (f old).addons = old.addons) :
    ∀ r ∈ (s.update key f).records, ∃ q ∈ s.records,
      r.component.id = q.component.id ∧ r.key = q.key ∧
      (¬ (f old).Extends q.component → r.component.addons ⊆ q.component.addons) ∧
      ((old.kind = .addon → old.Extends q.component →
          (f old).kind = .addon ∧ (f old).Extends q.component) →
        (∀ u ∈ q.component.addons, s.Supports q.component u) →
        ∀ u ∈ r.component.addons, (s.update key f).Supports r.component u) := by
  have k : Altered key (fun _ => (f old).bare) old.bare s (s.update key f) := altered_update hold f
  rw [update_eq hold] at k ⊢
  exact supports_refresh hs hold (find?_replaced hold (f old)) (fun _ => rfl) (fun _ _ => rfl) hid
    haddons rfl k

/-- A change by which an addon stays one, and still extends what it extended. -/
theorem Supported.update (h : s.Supported) (hs : s.WellIndexed) (hold : s.find? key = some old)
    {f : Component → Component} (hid : (f old).id = old.id)
    (haddons : (f old).addons = old.addons) (hupholds : old.Upholds (f old)) :
    (s.update key f).Supported := by
  rw [supported_iff] at h ⊢
  intro r hr
  obtain ⟨q, hq, -, -, -, hsupports⟩ := supports_update hs hold hid haddons r hr
  exact hsupports hupholds.of_extends (h q hq)

/-- A record of a catalog from which one was removed, which may have changed in place before. -/
theorem supports_removed (hs : s.WellIndexed) {f : Record → Record}
    (hold : s.find? key = some old) (hc : (s.modify key f).find? key = some c)
    (hkey : ∀ q, (f q).key = q.key) (hid : c.id = old.id) (hupholds : old.Upholds c)
    (h : s.Supported) {r : Record} (hr : r ∈ ((s.modify key f).removeKey key).records) {u : String}
    (hu : u ∈ r.component.addons) :
    ((s.modify key f).removeKey key).Supports r.component u ∨
      (old.kind = .addon ∧ u = old.uniqueId ∧ c.uniqueId ≠ old.uniqueId ∧
        ∃ q ∈ s.records, q.key ≠ key ∧ r.component.id = q.component.id ∧
          u ∈ q.component.addons) := by
  have hentry := mem_entries_of_find? hold
  have k : Removed key c s ((s.modify key f).removeKey key) := removed_modify_removeKey hc hkey
  have hindexed := hs.removed hentry hid k
  obtain ⟨q, hq, hother, hlink⟩ := relinked_removeKey hc r hr
  have hq₀ : q ∈ s.records := by
    obtain ⟨q₀, hq₀, rfl⟩ := List.mem_map.1 hq
    split at hother
    · rename_i hq₀key
      exact absurd ((hkey q₀).trans hq₀key) hother
    · rename_i hq₀key
      rwa [if_neg hq₀key]
  rcases hlink.addons u hu with ⟨hin, hno⟩ | hnew
  · obtain ⟨e, he, hkind, rfl, hextends⟩ := supported_iff.1 h q hq₀ u hin
    by_cases hekey : e.1 = key
    · obtain rfl : e = (key, old.bare) := hs.keyed.eq_of_key he hentry hekey
      obtain ⟨hckind, hcextends⟩ := hupholds.of_extends hkind hextends
      refine .inr ⟨hkind, rfl, ?_, q, hq₀, hother, hlink.id, hin⟩
      intro hsame
      exact hno ⟨hckind, hsame.symm, (hindexed.extended_iff hr hlink).2 hcextends⟩
    · have hstays : ((s.modify key f).removeKey key).Supports q.component e.2.uniqueId :=
        ⟨e, k.mem_iff.2 ⟨hekey, he⟩, hkind, rfl, hextends⟩
      exact .inl (hstays.congr hlink.id)
  · exact hnew.elim

theorem Supported.removed (h : s.Supported) (hs : s.WellIndexed) {f : Record → Record}
    (hold : s.find? key = some old) (hc : (s.modify key f).find? key = some c)
    (hkey : ∀ q, (f q).key = q.key) (hid : c.id = old.id) (hupholds : old.Upholds c)
    (huid : c.uniqueId = old.uniqueId) : ((s.modify key f).removeKey key).Supported := by
  rw [supported_iff]
  intro r hr u hu
  rcases supports_removed hs hold hc hkey hid hupholds h hr hu with hsupports | ⟨-, -, hne, -⟩
  · exact hsupports
  · exact absurd huid hne

theorem Supported.of_components (h : s.Supported) (hsame : t.components = s.components) :
    t.Supported := by
  unfold Supported
  rw [hsame]
  exact h

theorem Supported.stripKey (h : s.Supported) (hs : s.WellIndexed) (filename : String)
    (count key : Nat) : (stripKey filename (count, s) key).2.Supported := by
  unfold Store.stripKey
  cases hold : s.find? key with
  | none => exact h
  | some old =>
    have hstripped := find?_withoutFile hold filename
    have hupholds : old.Upholds (old.removeFormatsOf filename) := .refl old
    simp only
    split
    · exact h.removed hs hold hstripped (fun _ => rfl) rfl hupholds rfl
    · have k : Altered key (·.removeFormatsOf filename) old.bare s
          ((s.modify key (Record.withoutFile filename)).refresh key old.uniqueId) :=
        altered_refresh hstripped (fun _ => rfl) (fun _ => rfl) rfl
      have hf (q : Record) (hq : q.component = old) :
          (q.withoutFile filename).component = old.removeFormatsOf filename := hq ▸ rfl
      rw [supported_iff] at h ⊢
      intro r hr
      obtain ⟨q, hq, -, -, -, hsupports⟩ :=
        supports_refresh hs hold hstripped (fun _ => rfl) hf rfl rfl rfl k r hr
      exact hsupports hupholds.of_extends (h q hq)

theorem Supported.attachAddons (hs : s.WellIndexed) : s.attachAddons.2.Supported := by
  rw [supported_iff]
  intro r hr u hu
  obtain ⟨q, hq, hlink⟩ := relinked_attachAddons s r hr
  rcases hlink.addons u hu with ⟨-, hno⟩ | hnew
  · exact absurd trivial hno
  · obtain ⟨a, ha, hkind, huid, hkey⟩ := mem_links hnew
    have hextends := (hs.mem_extended_iff hq).1 hkey
    have hsupports : s.attachAddons.2.Supports q.component u := by
      refine ⟨(a.key, a.component.bare), ?_, hkind, huid, hextends⟩
      rw [s.sameCatalog_attachAddons.entries]
      exact List.mem_map_of_mem ha
    exact hsupports.congr hlink.id

theorem Supported.move (h : s.Supported) (hs : s.WellIndexed) (k : Move (fun _ => False) s t) :
    t.Supported := by
  cases k with
  | aside | inhibit | release | forget => exact h.of_components rfl
  | add hno => exact hno.elim
  | remove key =>
    cases hold : s.find? key with
    | none =>
      rw [removeKey_of_none hold]
      exact h
    | some old =>
      have hsame : s.modify key id = s := by simp [modify]
      have hfound : (s.modify key id).find? key = some old := by rw [hsame, hold]
      rw [← hsame]
      exact h.removed hs hold hfound (fun _ => rfl) rfl (.refl old) rfl
  | strip filename count key => exact h.stripKey hs filename count key
  | attachAddons => exact .attachAddons hs
  | buildTokens => exact h.of_components (by simp [components, buildTokens, Function.comp_def])
  | queryMetadata key value =>
    apply h.of_components
    unfold byMetadata
    split <;> rfl

theorem Supported.apply (h : s.Supported) (hs : s.WellIndexed) {op : Operation}
    (hadds : op.adds = false) : (s.apply op).Supported := by
  by_cases hstem : ∃ stem, op = .withStemmer stem
  · obtain ⟨stem, rfl⟩ := hstem
    exact h.of_components rfl
  · push Not at hstem
    have hmoves : Moves (fun _ => False) s (s.apply op) := s.moves_apply_of_not_adds hadds hstem
    have hboth : (s.apply op).Supported ∧ (s.apply op).WellIndexed := by
      generalize s.apply op = t at hmoves
      induction hmoves with
      | refl => exact ⟨h, hs⟩
      | tail _ hlast ih => exact ⟨ih.1.move ih.2 hlast, ih.2.edits (Moves.edits (.single hlast))⟩
    exact hboth.1

end Store

end SoftwareCatalog
