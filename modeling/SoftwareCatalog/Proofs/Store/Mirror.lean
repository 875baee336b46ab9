import Mathlib.Data.Multiset.AddSub
import SoftwareCatalog.Proofs.Store.Announcement
import SoftwareCatalog.Proofs.Store.Patching

namespace SoftwareCatalog

/-- What a follower has listed after one event more. An event that names a unique ID which is not
listed cannot be followed. -/
def ChangeEvent.follow (listed : Multiset String) : ChangeEvent → Option (Multiset String)
  | .changed => some listed
  | .added u => some (u ::ₘ listed)
  | .removed u => if u ∈ listed then some (listed.erase u) else none
  | .modified u => if u ∈ listed then some listed else none

/-- What a follower has listed after some events. -/
def replay (listed : Multiset String) (es : List ChangeEvent) : Option (Multiset String) :=
  es.foldlM ChangeEvent.follow listed

/-- The unique IDs before and after an event. What was modified may have had another unique ID
before. -/
inductive Renews (renames : String → String → Prop) :
    Multiset String → ChangeEvent → Multiset String → Prop
  | changed (listed : Multiset String) : Renews renames listed .changed listed
  | added (u : String) (listed : Multiset String) : Renews renames listed (.added u) (u ::ₘ listed)
  | removed (u : String) (listed : Multiset String) :
    Renews renames (u ::ₘ listed) (.removed u) listed
  | modified {v u : String} (h : v = u ∨ renames v u) (listed : Multiset String) :
    Renews renames (v ::ₘ listed) (.modified u) (u ::ₘ listed)

/-- The unique IDs before and after some events. -/
inductive Mirrors (renames : String → String → Prop) :
    Multiset String → List ChangeEvent → Multiset String → Prop
  | nil (listed : Multiset String) : Mirrors renames listed [] listed
  | cons {a b c : Multiset String} {e : ChangeEvent} {es : List ChangeEvent}
    (h : Renews renames a e b) (k : Mirrors renames b es c) : Mirrors renames a (e :: es) c

section Events

variable {renames renames' : String → String → Prop} {a b c : Multiset String} {e : ChangeEvent}
  {es fs : List ChangeEvent}

theorem Renews.mono (h : Renews renames a e b) (hsub : ∀ v u, renames v u → renames' v u) :
    Renews renames' a e b := by
  cases h with
  | changed => exact .changed a
  | added u => exact .added u a
  | removed u => exact .removed u b
  | modified h listed => exact .modified (h.imp_right (hsub _ _)) listed

/-- Where nothing gets another unique ID, a follower lists what there is. -/
theorem Renews.follow (h : Renews renames a e b) (hno : ∀ v u, ¬ renames v u) :
    e.follow a = some b := by
  cases h with
  | changed => rfl
  | added u => rfl
  | removed u => simp [ChangeEvent.follow]
  | modified h listed =>
    obtain rfl := h.resolve_right (hno _ _)
    simp [ChangeEvent.follow]

namespace Mirrors

theorem mono (h : Mirrors renames a es b) (hsub : ∀ v u, renames v u → renames' v u) :
    Mirrors renames' a es b := by
  induction h with
  | nil listed => exact .nil listed
  | cons h _ ih => exact .cons (h.mono hsub) ih

theorem trans (h : Mirrors renames a es b) (k : Mirrors renames b fs c) :
    Mirrors renames a (es ++ fs) c := by
  induction h with
  | nil => exact k
  | cons h _ ih => exact .cons h (ih k)

/-- The general event says nothing about unique IDs. -/
theorem of_changed (h : ∀ f ∈ es, f = .changed) (listed : Multiset String) :
    Mirrors renames listed es listed := by
  induction es with
  | nil => exact .nil listed
  | cons f es ih =>
    obtain rfl := h f List.mem_cons_self
    exact .cons (.changed listed) (ih fun f' h' => h f' (List.mem_cons_of_mem _ h'))

theorem replay_eq (h : Mirrors renames a es b) (hno : ∀ v u, ¬ renames v u) :
    replay a es = some b := by
  induction h with
  | nil => rfl
  | cons h _ ih =>
    unfold replay at ih ⊢
    rw [List.foldlM_cons, h.follow hno]
    exact ih

end Mirrors

end Events

namespace Store

variable {s t u : Store} {key : Nat} {c old : Component} {renames renames' : String → String → Prop}

/-- The unique IDs of all components, as often as they are carried. -/
def uniqueIds (s : Store) : Multiset String := s.components.map (·.uniqueId)

theorem uniqueIds_eq (s : Store) :
    s.uniqueIds = (s.entries.map (·.2.uniqueId) : Multiset String) := by
  unfold uniqueIds components entries
  rw [List.map_map, List.map_map]
  rfl

/-- What was told on the way from one catalog to another one says what became of the unique IDs. -/
def Followed (renames : String → String → Prop) (s t : Store) : Prop :=
  ∃ es, t.notifier.sent = s.notifier.sent ++ es ∧ Mirrors renames s.uniqueIds es t.uniqueIds

namespace Followed

theorem same (hsent : t.notifier.sent = s.notifier.sent) (hentries : t.entries = s.entries) :
    Followed renames s t := by
  refine ⟨[], by rw [hsent, List.append_nil], ?_⟩
  rw [t.uniqueIds_eq, hentries, ← s.uniqueIds_eq]
  exact .nil _

theorem trans (h : Followed renames s t) (k : Followed renames t u) : Followed renames s u := by
  obtain ⟨es, hes, hs⟩ := h
  obtain ⟨fs, hfs, ht⟩ := k
  exact ⟨es ++ fs, by rw [hfs, hes, List.append_assoc], hs.trans ht⟩

theorem mono (h : Followed renames s t) (hsub : ∀ v u, renames v u → renames' v u) :
    Followed renames' s t := by
  obtain ⟨es, hes, hs⟩ := h
  exact ⟨es, hes, hs.mono hsub⟩

theorem tell {e : ChangeEvent} (h : t.notifier = s.notifier.tell e)
    (k : Renews renames s.uniqueIds e t.uniqueIds) : Followed renames s t := by
  obtain ⟨es, hsent, hes⟩ := s.notifier.sent_tell e
  exact ⟨e :: es, by rw [h, hsent], .cons k (.of_changed hes _)⟩

end Followed

theorem followed_insert (s : Store) (c : Component) : Followed renames s (s.insert c) := by
  have huids : (s.insert c).uniqueIds = c.uniqueId ::ₘ s.uniqueIds := by
    rw [uniqueIds_eq, uniqueIds_eq, (inserted_insert s c).entries, List.map_append,
      ← Multiset.coe_add, ← Multiset.singleton_add, Multiset.add_comm]
    rfl
  apply Followed.tell (s.notifier_insert c)
  rw [huids]
  exact .added _ _

theorem Followed.altered (hs : s.Keyed) {g : Component → Component}
    (hold : (key, old) ∈ s.entries) (k : Altered key g old s t)
    (htold : t.notifier = s.notifier.tell (.modified (g old).uniqueId))
    (h : old.uniqueId ≠ (g old).uniqueId → renames old.uniqueId (g old).uniqueId) :
    Followed renames s t := by
  obtain ⟨front, rear, hsplit, hfront, hrear⟩ := hs.split hold
  have hothers {es : List (Nat × Component)} (hes : ∀ e ∈ es, e.1 ≠ key) :
      es.map (alter key g) = es := by
    rw [List.map_congr_left (g := id), List.map_id]
    intro e he
    exact if_neg (hes e he)
  have hself : alter key g (key, old) = (key, g old) := if_pos rfl
  have hbefore : s.uniqueIds = old.uniqueId ::ₘ
      ((front ++ rear).map (·.2.uniqueId) : List String) := by
    rw [uniqueIds_eq, hsplit, Multiset.cons_coe, Multiset.coe_eq_coe]
    simp only [List.map_append, List.map_cons]
    exact List.perm_middle
  have hafter : t.uniqueIds = (g old).uniqueId ::ₘ
      ((front ++ rear).map (·.2.uniqueId) : List String) := by
    rw [uniqueIds_eq, k.entries, hsplit, List.map_append, List.map_cons, hothers hfront,
      hothers hrear, hself, Multiset.cons_coe, Multiset.coe_eq_coe]
    simp only [List.map_append, List.map_cons]
    exact List.perm_middle
  apply Followed.tell htold
  rw [hbefore, hafter]
  exact .modified (or_iff_not_imp_left.2 h) _

theorem Followed.removed (hs : s.Keyed) (hold : (key, old) ∈ s.entries) (k : Removed key c s t)
    (htold : t.notifier = s.notifier.tell (.removed old.uniqueId)) : Followed renames s t := by
  obtain ⟨front, rear, hsplit, hleft⟩ := hs.split_filter hold
  have huids : s.uniqueIds = old.uniqueId ::ₘ t.uniqueIds := by
    rw [uniqueIds_eq, uniqueIds_eq, k.entries, hleft, hsplit, Multiset.cons_coe,
      Multiset.coe_eq_coe]
    simp only [List.map_append, List.map_cons]
    exact List.perm_middle
  apply Followed.tell htold
  rw [huids]
  exact .removed _ _

theorem Followed.update (hs : s.Keyed) (hold : s.find? key = some old) (f : Component → Component)
    (h : old.uniqueId ≠ (f old).uniqueId → renames old.uniqueId (f old).uniqueId) :
    Followed renames s (s.update key f) :=
  Followed.altered hs (mem_entries_of_find? hold) (altered_update hold f) (notifier_update hold f) h

theorem followed_removeKey (hs : s.Keyed) (key : Nat) : Followed renames s (s.removeKey key) := by
  cases hold : s.find? key with
  | none =>
    rw [removeKey_of_none hold]
    exact .same rfl rfl
  | some old =>
    have htold := notifier_removeKey hold
    exact .removed hs (mem_entries_of_find? hold) (removed_removeKey hold) htold

theorem followed_stripKey (hs : s.Keyed) (filename : String) (count key : Nat) :
    Followed renames s (stripKey filename (count, s) key).2 := by
  unfold stripKey
  cases hold : s.find? key with
  | none => exact .same rfl rfl
  | some old =>
    have hstripped := find?_withoutFile hold filename
    have hentry := mem_entries_of_find? hold
    simp only
    split
    · have htold := notifier_removeKey hstripped
      exact .removed hs hentry (removed_modify_removeKey hstripped fun _ => rfl) htold
    · have k : Altered key (·.removeFormatsOf filename) old.bare s
          ((s.modify key (Record.withoutFile filename)).refresh key old.uniqueId) :=
        altered_refresh hstripped (fun _ => rfl) (fun _ => rfl) rfl
      exact .altered hs hentry k (notifier_refresh hstripped _) fun hne => absurd rfl hne

theorem followed_release (s : Store) (guard : Nat) : Followed renames s (s.release guard) := by
  obtain ⟨es, hsent, hes⟩ := s.notifier.sent_call (.release guard)
  exact ⟨es, hsent, .of_changed hes _⟩

/-- Where nothing comes in, no unique ID changes. -/
theorem followed_move (hs : s.Keyed) (k : Move (fun _ => False) s t) : Followed renames s t := by
  cases k with
  | aside | inhibit | forget => exact .same rfl rfl
  | buildTokens => exact .same rfl (by simp [entries, buildTokens])
  | release guard => exact s.followed_release guard
  | add hno => exact hno.elim
  | remove key => exact followed_removeKey hs key
  | strip filename count key => exact followed_stripKey hs filename count key
  | attachAddons => exact .same (congrArg _ s.notifier_attachAddons) s.sameCatalog_attachAddons.entries
  | queryMetadata key value =>
    apply Followed.same ?_ (s.sameCatalog_byMetadata key value).entries
    unfold byMetadata
    split <;> rfl

/-- Adding a component gives a stored record another unique ID: the one that it meets and that
stays, or one that is patched. -/
inductive Renames (s : Store) (c : Component) (v u : String) : Prop
  | merged {id : String} {key : Nat} {old : Component} (hid : c.id = some id)
    (hpatch : c.mergeKind.isPatch = false) (h : s.Meets (s.patched id c) key old .stored)
    (hne : v ≠ u) (hold : old.uniqueId = v)
    (hnew : (s.verdict old (s.patched id c)).stored.uniqueId = u)
  | patched {id : String} {key : Nat} {old : Component} (hid : c.id = some id)
    (hpatch : c.mergeKind.isPatch = true) (hkey : key ∈ s.targets id c)
    (hfound : s.find? key = some old) (hne : v ≠ u) (hold : old.uniqueId = v)
    (hnew : (old.subsume (patchFlags c) c).uniqueId = u)

/-- The record that a component meets is announced as gone under another unique ID than it had. -/
def Misnames (s : Store) (c : Component) : Prop :=
  ∃ id key old, c.id = some id ∧ c.mergeKind.isPatch = false ∧
    s.Meets (s.patched id c) key old .incoming ∧
    (s.verdict old (s.patched id c)).stored.uniqueId ≠ old.uniqueId

theorem not_misnames_of_stays (h : ∀ id ∈ c.id, ∀ old ∈ (s.existing? (s.patched id c)).bind s.find?,
    (s.verdict old (s.patched id c)).survivor = .stored) : ¬ Misnames s c := by
  intro hmisnames
  obtain ⟨id, key, old, hid, -, hmeets, -⟩ := hmisnames
  have hstays := h id hid old hmeets.existing_bind
  rw [hmeets.survivor] at hstays
  cases hstays

theorem followed_encounter (hs : s.Keyed) (k : Encounter s c t)
    (hmerged : ∀ key old, s.Meets c key old .stored →
      old.uniqueId ≠ (s.verdict old c).stored.uniqueId →
      renames old.uniqueId (s.verdict old c).stored.uniqueId)
    (hreplaced : ∀ key old, s.Meets c key old .incoming →
      (s.verdict old c).stored.uniqueId = old.uniqueId) : Followed renames s t := by
  cases k with
  | inserted _ => exact s.followed_insert c
  | @merged key old h => exact .update hs h.found _ (hmerged key old h)
  | @replaced key old h =>
    have hstored := find?_replaced h.found (s.verdict old c).stored
    have htold := notifier_removeKey hstored
    rw [hreplaced key old h] at htold
    have hgone : Followed renames s
        ((s.modify key fun e => e.replace (s.verdict old c).stored).removeKey key) :=
      .removed hs (mem_entries_of_find? h.found)
        (removed_modify_removeKey hstored fun _ => rfl) htold
    exact hgone.trans (followed_insert _ _)

theorem followed_given {patch : Component} {keys : List Nat} (hs : s.WellIndexed)
    (hnodup : keys.Nodup) (h : ∀ key ∈ keys, ∀ b, (key, b) ∈ s.entries →
      b.uniqueId ≠ (b.subsume (patchFlags patch) patch).uniqueId →
      renames b.uniqueId (b.subsume (patchFlags patch) patch).uniqueId) :
    Followed renames s (s.given patch keys) := by
  induction keys generalizing s with
  | nil => exact .same rfl rfl
  | cons key keys ih =>
    obtain ⟨hkey, hnodup⟩ := List.nodup_cons.1 hnodup
    have hfirst : Followed renames s
        (s.update key fun c => c.subsume (patchFlags patch) patch) := by
      cases hold : s.find? key with
      | none =>
        rw [update_of_none hold]
        exact .same rfl rfl
      | some old =>
        have hrenames := h key List.mem_cons_self old.bare (mem_entries_of_find? hold)
        exact .update hs.keyed hold _ hrenames
    have hindexed : (s.update key fun c => c.subsume (patchFlags patch) patch).WellIndexed :=
      hs.edits (edits_update s key fun _ => rfl)
    refine hfirst.trans (ih hindexed hnodup ?_)
    intro key' hkey' b hb
    -- no key comes twice, so the records that are still to be patched are as they were in `s`
    have hne : key' ≠ key := fun heq => hkey (heq ▸ hkey')
    have hbefore := hs.keyed.mem_update (f := fun c => c.subsume (patchFlags patch) patch)
      (fun _ => rfl) |>.1 hb
    have hsame := hbefore.resolve_right fun hnew => hne hnew.1
    exact h key' (List.mem_cons_of_mem key hkey') b hsame.2

theorem followed_add (hs : s.WellIndexed) (hnamed : ¬ Misnames s c) :
    Followed (Renames s c) s (s.add c) := by
  cases hid : c.id with
  | none =>
    rw [add_of_no_id hid]
    exact .same rfl rfl
  | some id =>
    cases hpatch : c.mergeKind.isPatch with
    | true =>
      obtain ⟨pool, patches, heq⟩ := s.add_eq_given hid hpatch
      have hpooled : ({ s with pool } : Store).WellIndexed := hs.same ⟨rfl, rfl, rfl, rfl, rfl, rfl⟩
      have hgiven : Followed (Renames s c) { s with pool }
          (({ s with pool } : Store).given c (s.targets id c)) := by
        apply followed_given hpooled (hs.nodup_targets id c)
        intro key hkey b hb hne
        obtain ⟨old, hfound⟩ := find?_of_mem_targets hkey
        obtain rfl := hs.keyed.component_eq (mem_entries_of_find? hfound) hb
        exact .patched hid hpatch hkey hfound hne rfl rfl
      rw [heq]
      exact hgiven.trans (.same rfl rfl)
    | false =>
      obtain ⟨pool, k⟩ := s.encounter_add hid hpatch
      have hkeyed : ({ s with pool } : Store).Keyed := ⟨hs.keyed.ascending, hs.keyed.fresh⟩
      have hmet : Followed (Renames s c) { s with pool } (s.add c) := by
        apply followed_encounter hkeyed k
        · intro key old h hne
          exact .merged hid hpatch (meets_pool_iff.1 h) hne rfl rfl
        · intro key old h
          by_contra hne
          exact hnamed ⟨id, key, old, hid, hpatch, meets_pool_iff.1 h, hne⟩
      exact hmet

theorem Followed.course {adds : List Addition} (hs : s.WellIndexed) (k : Course s adds t)
    (hadds : ∀ a ∈ adds, a.2.Proper ∧ ¬ Misnames a.1 a.2) :
    t.WellIndexed ∧ Followed (fun v u => ∃ a ∈ adds, Renames a.1 a.2 v u) s t := by
  induction k with
  | refl => exact ⟨hs, .same rfl rfl⟩
  | @move adds t u _ k ih =>
    obtain ⟨hindexed, hbefore⟩ := ih hadds
    exact ⟨hindexed.edits (Moves.edits (.single k)), hbefore.trans (followed_move hindexed.keyed k)⟩
  | @add adds t _ c ih =>
    obtain ⟨hindexed, hbefore⟩ := ih fun a ha => hadds a (List.mem_append_left _ ha)
    obtain ⟨hproper, hnamed⟩ := hadds (t, c) (List.mem_append_right _ List.mem_cons_self)
    refine ⟨hindexed.step (.add hproper), (hbefore.mono ?_).trans
      ((followed_add hindexed hnamed).mono ?_)⟩
    · intro v u hsome
      obtain ⟨a, ha, h⟩ := hsome
      exact ⟨a, List.mem_append_left _ ha, h⟩
    · intro v u h
      exact ⟨(t, c), List.mem_append_right _ List.mem_cons_self, h⟩

theorem Followed.run (hs : s.WellIndexed) {ops : List Operation}
    (hadds : ∀ a ∈ s.runAdditions ops, a.2.Proper ∧ ¬ Misnames a.1 a.2) :
    (s.run ops).WellIndexed ∧
      Followed (fun v u => ∃ a ∈ s.runAdditions ops, Renames a.1 a.2 v u) s (s.run ops) := by
  induction ops generalizing s with
  | nil => exact ⟨hs, .same rfl rfl⟩
  | cons op ops ih =>
    have hfirst : (s.apply op).WellIndexed ∧
        Followed (fun v u => ∃ a ∈ s.operationAdditions op, Renames a.1 a.2 v u) s
          (s.apply op) := by
      by_cases hop : ∃ stem, op = .withStemmer stem
      · obtain ⟨stem, rfl⟩ := hop
        exact ⟨hs.same (s.sameCatalog_withStemmer stem).sameIndices, .same rfl rfl⟩
      · push Not at hop
        exact Followed.course hs (s.course_apply hop) fun a ha =>
          hadds a (List.mem_append_left _ ha)
    obtain ⟨hindexed, hrest⟩ := ih hfirst.1 fun a ha => hadds a (List.mem_append_right _ ha)
    refine ⟨hindexed, (hfirst.2.mono ?_).trans (hrest.mono ?_)⟩
    · intro v u hsome
      obtain ⟨a, ha, h⟩ := hsome
      exact ⟨a, List.mem_append_left _ ha, h⟩
    · intro v u hsome
      obtain ⟨a, ha, h⟩ := hsome
      exact ⟨a, List.mem_append_right _ ha, h⟩

/-- What a subscriber receives who has seen all that was sent, and looks again after each of some
batches of operations. -/
def received (s : Store) : List (List Operation) → List Delivery
  | [] => []
  | ops :: batches =>
    (s.run ops).notifier.deliveries s.notifier.sent.length ++ (s.run ops).received batches

theorem received_of_not_lagged (hs : s.WellIndexed) {batches : List (List Operation)}
    (hadds : ∀ a ∈ s.runAdditions batches.flatten, a.2.Proper ∧ ¬ Misnames a.1 a.2)
    (hmissed : ∀ missed, .lagged missed ∉ s.received batches) :
    (s.run batches.flatten).notifier.sent.map .event =
      s.notifier.sent.map .event ++ s.received batches := by
  induction batches generalizing s with
  | nil => exact (List.append_nil _).symm
  | cons ops batches ih =>
    rw [List.flatten_cons, runAdditions_append] at hadds
    obtain ⟨hindexed, es, hes, -⟩ := Followed.run hs fun a ha => hadds a (List.mem_append_left _ ha)
    have hfirst := Notifier.deliveries_of_not_lagged fun missed hlagged =>
      hmissed missed (List.mem_append_left _ hlagged)
    have hrest := ih hindexed (fun a ha => hadds a (List.mem_append_right _ ha)) fun missed hlagged =>
      hmissed missed (List.mem_append_right _ hlagged)
    unfold received
    rw [List.flatten_cons, run_append, hrest, hfirst, hes, List.drop_left, List.map_append,
      List.append_assoc]

/-- A subscriber who misses nothing can follow the catalog: between any two moments of a run, what
it receives says what became of the unique IDs, where a modified record may have had another unique
ID before that an addition changed. If no addition changes a unique ID, every event names one that
is listed, and what is listed are always the unique IDs of the components. No record may give way
under another unique ID than it was announced with. -/
theorem followed_by_subscriber {settings : Settings} {reader : Reader} (hr : reader.Proper)
    {batches : List (List Operation)} (hops : ∀ op ∈ batches.flatten, Operation.Proper op)
    (hnamed : ∀ a ∈ runAdditions (new settings reader) batches.flatten, ¬ Misnames a.1 a.2)
    (hmissed : ∀ missed, .lagged missed ∉ (new settings reader).received batches) :
    (new settings reader).received batches =
      ((new settings reader).run batches.flatten).notifier.sent.map .event ∧
    (∀ done part later, batches.flatten = done ++ part ++ later →
      Followed (fun v u => ∃ a ∈ runAdditions ((new settings reader).run done) part,
        Renames a.1 a.2 v u) ((new settings reader).run done)
        ((new settings reader).run (done ++ part))) ∧
    ((∀ a ∈ runAdditions (new settings reader) batches.flatten, ∀ v u, ¬ Renames a.1 a.2 v u) →
      ∀ done later, batches.flatten = done ++ later →
        replay 0 ((new settings reader).run done).notifier.sent =
          some ((new settings reader).run done).uniqueIds) := by
  have hstart := wellIndexed_new settings reader
  have hproper := all_runAdditions untranslated_proper (s := new settings reader) hr
    fun op hop => (hops op hop).brings
  have hadds : ∀ a ∈ runAdditions (new settings reader) batches.flatten,
      a.2.Proper ∧ ¬ Misnames a.1 a.2 := fun a ha => ⟨hproper a ha, hnamed a ha⟩
  have hparts : ∀ done part later, batches.flatten = done ++ part ++ later →
      Followed (fun v u => ∃ a ∈ runAdditions ((new settings reader).run done) part,
        Renames a.1 a.2 v u) ((new settings reader).run done)
        ((new settings reader).run (done ++ part)) := by
    intro done part later hsplit
    rw [hsplit, runAdditions_append, runAdditions_append] at hadds
    have hdone := Followed.run hstart fun a ha =>
      hadds a (List.mem_append_left _ (List.mem_append_left _ ha))
    rw [run_append]
    exact (Followed.run hdone.1 fun a ha =>
      hadds a (List.mem_append_left _ (List.mem_append_right _ ha))).2
  refine ⟨(received_of_not_lagged hstart hadds hmissed).symm, hparts, ?_⟩
  intro hkept done later hsplit
  rw [hsplit, runAdditions_append] at hkept
  obtain ⟨es, hes, hmirrors⟩ := hparts [] done later hsplit
  have hsent : ((new settings reader).run done).notifier.sent = es := hes
  rw [hsent]
  apply hmirrors.replay_eq
  intro v u hsome
  obtain ⟨a, ha, hrenames⟩ := hsome
  exact hkept a (List.mem_append_left _ ha) v u hrenames

/-- A program that says nothing but its ID, and one under the same ID that says its kind. -/
def plainProgram : Component := Component.ofId "a"

def kindredProgram : Component := { Component.ofId "a" with kind := .desktop }

/-- A merge that fills in the kind modifies the record under the unique ID that it has since. -/
theorem received_of_kind :
    Reader.any.Proper ∧ plainProgram.Proper ∧ kindredProgram.Proper ∧
    (new ⟨{}, {}, ⟨["en"], 4, true, 3⟩⟩ Reader.any).received
      [[.add plainProgram], [.add kindredProgram, .removeAll]] =
      ((new ⟨{}, {}, ⟨["en"], 4, true, 3⟩⟩ Reader.any).run
        [.add plainProgram, .add kindredProgram, .removeAll]).notifier.sent.map .event ∧
    Followed (fun v u => ∃ a ∈ runAdditions
        ((new ⟨{}, {}, ⟨["en"], 4, true, 3⟩⟩ Reader.any).run [.add plainProgram])
        [.add kindredProgram], Renames a.1 a.2 v u)
      ((new ⟨{}, {}, ⟨["en"], 4, true, 3⟩⟩ Reader.any).run [.add plainProgram])
      ((new ⟨{}, {}, ⟨["en"], 4, true, 3⟩⟩ Reader.any).run
        [.add plainProgram, .add kindredProgram]) := by
  have hplain : plainProgram.Proper := by decide +kernel
  have hkindred : kindredProgram.Proper := by decide +kernel
  have hops : ∀ op ∈ [[Operation.add plainProgram], [.add kindredProgram, .removeAll]].flatten,
      Operation.Proper op := by
    intro op hop
    simp only [List.flatten_cons, List.flatten_nil, List.append_nil, List.cons_append,
      List.nil_append, List.mem_cons, List.not_mem_nil, or_false] at hop
    rcases hop with rfl | rfl | rfl
    · exact hplain
    · exact hkindred
    · trivial
  have hnamed : ∀ a ∈ runAdditions (new ⟨{}, {}, ⟨["en"], 4, true, 3⟩⟩ Reader.any)
      [[.add plainProgram], [.add kindredProgram, .removeAll]].flatten, ¬ Misnames a.1 a.2 := by
    intro a ha
    simp only [List.flatten_cons, List.flatten_nil, List.append_nil, List.cons_append,
      List.nil_append, runAdditions, operationAdditions, List.mem_cons, List.not_mem_nil,
      or_false] at ha
    rcases ha with rfl | rfl
    · exact not_misnames_of_stays (by decide +kernel)
    · exact not_misnames_of_stays (by decide +kernel)
  have hmissed : ∀ missed, .lagged missed ∉
      (new ⟨{}, {}, ⟨["en"], 4, true, 3⟩⟩ Reader.any).received
        [[.add plainProgram], [.add kindredProgram, .removeAll]] := by
    have hreceived : (new ⟨{}, {}, ⟨["en"], 4, true, 3⟩⟩ Reader.any).received
        [[.add plainProgram], [.add kindredProgram, .removeAll]] =
        ([.added "*/*/*/*/a/*", .changed, .modified "*/*/*/desktop/a/*", .changed,
          .removed "*/*/*/desktop/a/*", .changed].map .event : List Delivery) := by
      decide +kernel
    rw [hreceived]
    simp
  obtain ⟨hreceived, hfollowed, -⟩ :=
    followed_by_subscriber Reader.proper_any hops hnamed hmissed
  refine ⟨Reader.proper_any, hplain, hkindred, hreceived, ?_⟩
  exact hfollowed [.add plainProgram] [.add kindredProgram] [.removeAll] rfl

/-- So it names a unique ID that was never listed. -/
theorem not_replayed_after_kind :
    plainProgram.Proper ∧ kindredProgram.Proper ∧
    replay 0 ((new ⟨{}, {}, ⟨["en"], 4, true, 3⟩⟩ Reader.any).run
      [.add plainProgram, .add kindredProgram]).notifier.sent = none := by
  refine ⟨by decide +kernel, by decide +kernel, ?_⟩
  decide +kernel

end Store

end SoftwareCatalog
