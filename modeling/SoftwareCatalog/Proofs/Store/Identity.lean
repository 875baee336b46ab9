import Mathlib.Data.List.Pairwise
import SoftwareCatalog.Proofs.Component.Identity
import SoftwareCatalog.Proofs.Store.UniqueIdQuery

namespace SoftwareCatalog.Store

variable {s t : Store} {x : String} {key : Nat} {c d old : Component}

/-- No two stored components can describe the same one. -/
def Apart (s : Store) : Prop := s.components.Pairwise fun c d => c.sameIdentity d = false

instance (s : Store) : Decidable s.Apart :=
  inferInstanceAs (Decidable (s.components.Pairwise fun c d => c.sameIdentity d = false))

theorem apart_iff_pairwise :
    s.Apart ↔ s.entries.Pairwise fun d e => d.2.sameIdentity e.2 = false := by
  unfold Apart components entries
  rw [List.pairwise_map, List.pairwise_map]
  rfl

theorem Keyed.apart_iff (h : s.Keyed) : s.Apart ↔
    ∀ d ∈ s.entries, ∀ e ∈ s.entries, d.1 ≠ e.1 → d.2.sameIdentity e.2 = false := by
  rw [apart_iff_pairwise]
  constructor
  · intro hpairs d hd e he hne
    have hsymm : Std.Symm fun d e : Nat × Component => d.2.sameIdentity e.2 = false :=
      ⟨fun d e hde => by rw [Component.sameIdentity_comm, hde]⟩
    exact hpairs.forall hd he fun heq => hne (congrArg Prod.fst heq)
  · intro hall
    have hkeys : s.entries.Pairwise fun d e => d.1 < e.1 := List.pairwise_map.1 h.ascending
    exact hkeys.imp_of_mem fun hd he hlt => hall _ hd _ he (Nat.ne_of_lt hlt)

/-- Where one entry is new, it has to be apart from the others. -/
theorem apart_iff_of_new (hs : s.Keyed) (ht : t.Keyed) (h : s.Apart)
    (hnew : (key, c) ∈ t.entries)
    (hothers : ∀ e ∈ t.entries, e.1 ≠ key → e ∈ s.entries) :
    t.Apart ↔ ∀ e ∈ t.entries, e.1 ≠ key → c.sameIdentity e.2 = false := by
  have hall := hs.apart_iff.1 h
  rw [ht.apart_iff]
  constructor
  · intro hpairs e he hne
    exact hpairs _ hnew e he hne.symm
  · intro hfirst d hd e he hne
    by_cases hdk : d.1 = key
    · have hdc := ht.eq_of_key hd hnew hdk
      rw [hdc]
      exact hfirst e he fun hek => hne (hdk.trans hek.symm)
    · by_cases hek : e.1 = key
      · have hec := ht.eq_of_key he hnew hek
        rw [hec, Component.sameIdentity_comm]
        exact hfirst d hd hdk
      · exact hall d (hothers d hd hdk) e (hothers e he hek) hne

/-- With unique IDs the record that a component meets can describe the same, or agrees with it in
scope and bundle kind. -/
theorem alike_of_existing? (hunique : s.settings.add.useUniqueId = true)
    (hkey : s.existing? c = some key) (hold : s.find? key = some old) :
    old.sameIdentity c = true ∨ old.hosts c = true := by
  have hfirst {id : String} {alike : Component → Bool} (h : s.firstWithId id alike = some key) :
      alike old = true := by
    unfold firstWithId at h
    rw [if_pos hunique] at h
    have hany := List.find?_some h
    rw [hold] at hany
    exact hany
  unfold existing? at hkey
  obtain ⟨id, -, h⟩ := Option.bind_eq_some_iff.1 hkey
  rcases Option.or_eq_some_iff.1 h with h | ⟨-, h⟩
  · exact .inl (hfirst h)
  · split at h
    · exact .inr (hfirst h)
    · cases h

theorem agree_bundleKind_of_existing? (hunique : s.settings.add.useUniqueId = true)
    (hkey : s.existing? c = some key) (hold : s.find? key = some old) :
    Component.agree .unset old.bundleKind c.bundleKind = true := by
  rcases alike_of_existing? hunique hkey hold with hsame | hhosts
  · simp only [Component.sameIdentity, Bool.and_eq_true, and_assoc] at hsame
    exact hsame.2.1
  · simp only [Component.hosts, Bool.and_eq_true, beq_iff_eq] at hhosts
    simp [Component.agree, hhosts.2]

/-- Where no record describes the same as a component, it is apart from all. -/
theorem WellIndexed.apart_of_existing?_none (h : s.WellIndexed)
    (hunique : s.settings.add.useUniqueId = true) (hid : c.id = some x)
    (hnone : s.existing? c = none) : ∀ e ∈ s.entries, c.sameIdentity e.2 = false := by
  have hfirst : s.firstWithId x (fun d => d.sameIdentity c) = none := by
    unfold existing? at hnone
    rw [hid, Option.bind_some, Option.or_eq_none_iff] at hnone
    exact hnone.1
  unfold firstWithId at hfirst
  rw [if_pos hunique, List.find?_eq_none] at hfirst
  intro e he
  obtain ⟨y, hy, -⟩ := h.named e he
  by_cases hxy : x = y
  · obtain rfl := hxy
    have hin : e.1 ∈ s.keysOf x := by
      rw [h.keysOf_eq]
      exact mem_keysNamed.2 ⟨e.2, he, hy⟩
    obtain ⟨d, hd, hbare⟩ := h.keyed.find?_of_mem he
    have hno := hfirst _ hin
    rw [hd] at hno
    rw [Component.sameIdentity_comm, ← hbare]
    exact Bool.eq_false_iff.2 hno
  · exact Component.not_sameIdentity_of_id hid hy hxy

/-- Adding a component leaves what stays of it and of the record that it meets with the identity of
another record: it takes the place of that record with its own unset attributes, or a bundle of no
kind replaces the kind that package names stand for. -/
def Blurs (s : Store) (c : Component) : Prop :=
  ∃ key old, s.existing? c = some key ∧ s.find? key = some old ∧
    ((reconcile s.settings.add.preferLocal old c).survivor = .incoming ∨ old.Relabels c) ∧
    ∃ e ∈ s.entries, e.1 ≠ key ∧
      (reconcile s.settings.add.preferLocal old c).kept.sameIdentity e.2 = true

/-- A record that stays in place sets no fewer attributes than before, unless a bundle of no kind
comes in. -/
theorem refines_reconcile_stored {preferLocal : Bool}
    (hagree : Component.agree .unset old.bundleKind c.bundleKind = true)
    (hrelabels : ¬ old.Relabels c)
    (hstays : (reconcile preferLocal old c).survivor = .stored) :
    (reconcile preferLocal old c).stored.Refines old := by
  rw [reconcile_eq_outcome] at hstays ⊢
  cases hruling : ruling preferLocal old.formatKind c.formatKind old.priority c.priority with
  | keepStored => exact Component.refines_subsume_salvage old c
  | keepIncoming =>
    rw [hruling] at hstays
    cases hstays
  | merge survivor => exact Component.refines_subsume rfl rfl fun h => hrelabels (h.of_agree hagree)

/-- Whatever stays of two components that met, only it has to be apart from the other records. -/
theorem WellIndexed.apart_met_iff_kept (h : s.WellIndexed) (ht : t.WellIndexed) (hapart : s.Apart)
    (hkey : s.existing? c = some key) (hold : s.find? key = some old) (k : Met c s t) :
    t.Apart ↔ ∀ e ∈ s.entries, e.1 ≠ key →
      (reconcile s.settings.add.preferLocal old c).kept.sameIdentity e.2 = false := by
  have hentry := mem_entries_of_find? hold
  cases k with
  | inserted hnew _ =>
    rw [hkey] at hnew
    cases hnew
  | lost hkey' hgone _ =>
    obtain rfl := Option.some.inj (hkey.symm.trans hkey')
    rw [hold] at hgone
    cases hgone
  | merged hkey' hold' hstays k =>
    obtain rfl := Option.some.inj (hkey.symm.trans hkey')
    obtain rfl := Option.some.inj (hold.symm.trans hold')
    have hmem {e : Nat × Component} (hne : e.1 ≠ key) : e ∈ t.entries ↔ e ∈ s.entries := by
      rw [k.mem_iff h.keyed hentry]
      simp [hne]
    have hin := (k.mem_iff h.keyed hentry).2 (.inl ⟨rfl, rfl⟩)
    rw [apart_iff_of_new h.keyed ht.keyed hapart hin fun e he hne => (hmem hne).1 he,
      Reconciled.kept_of_stored hstays]
    constructor
    · intro hall e he hne
      exact hall e ((hmem hne).2 he) hne
    · intro hall e he hne
      exact hall e ((hmem hne).1 he) hne
  | @replaced _ _ rest hkey' hold' hgoes hrest k =>
    obtain rfl := Option.some.inj (hkey.symm.trans hkey')
    obtain rfl := Option.some.inj (hold.symm.trans hold')
    have hmem {e : Nat × Component} (hne : e.1 ≠ rest.nextKey) :
        e ∈ t.entries ↔ e.1 ≠ key ∧ e ∈ s.entries := by
      rw [k.mem_iff, hrest.mem_iff]
      simp [hne]
    have hin : (rest.nextKey, (reconcile s.settings.add.preferLocal old c).incoming.bare) ∈
        t.entries := k.mem_iff.2 (.inr ⟨rfl, rfl⟩)
    rw [apart_iff_of_new h.keyed ht.keyed hapart hin fun e he hne => ((hmem hne).1 he).2,
      Reconciled.kept_of_incoming hgoes]
    constructor
    · intro hall e he hne
      have hfresh : e.1 ≠ rest.nextKey := by
        rw [hrest.nextKey]
        exact Nat.ne_of_lt (h.keyed.fresh e he)
      exact hall e ((hmem hfresh).2 ⟨hne, he⟩) hfresh
    · intro hall e he hfresh
      obtain ⟨hne, hin'⟩ := (hmem hfresh).1 he
      exact hall e hin' hne

/-- Components stay apart as long as none is added that blurs what tells them apart. -/
theorem WellIndexed.apart_met_iff (h : s.WellIndexed) (ht : t.WellIndexed)
    (hunique : s.settings.add.useUniqueId = true) (hid : c.id = some x) (hapart : s.Apart)
    (k : Met c s t) : t.Apart ↔ ¬ Blurs s c := by
  cases hkey : s.existing? c with
  | none =>
    have hall : t.Apart := by
      cases k with
      | inserted _ k =>
        have hmem {e : Nat × Component} (he : e ∈ t.entries) (hne : e.1 ≠ s.nextKey) :
            e ∈ s.entries := (k.mem_iff.1 he).resolve_right fun hboth => hne hboth.1
        have hin : (s.nextKey, c.bare) ∈ t.entries := k.mem_iff.2 (.inr ⟨rfl, rfl⟩)
        rw [apart_iff_of_new h.keyed ht.keyed hapart hin fun e => hmem]
        intro e he hne
        exact h.apart_of_existing?_none hunique hid hkey e (hmem he hne)
      | lost hkey' | merged hkey' | replaced hkey' =>
        rw [hkey] at hkey'
        cases hkey'
    refine iff_of_true hall ?_
    rintro ⟨_, _, hkey', -⟩
    rw [hkey] at hkey'
    cases hkey'
  | some key =>
    obtain ⟨old, hold⟩ := h.find?_of_existing? hid hkey
    have hentry := mem_entries_of_find? hold
    rw [h.apart_met_iff_kept ht hapart hkey hold k]
    constructor
    · rintro hall ⟨key', old', hkey', hold', -, e, he, hne, hsame⟩
      obtain rfl := Option.some.inj (hkey.symm.trans hkey')
      obtain rfl := Option.some.inj (hold.symm.trans hold')
      exact Bool.false_ne_true ((hall e he hne).symm.trans hsame)
    · intro hclear e he hne
      rw [Bool.eq_false_iff]
      intro hsame
      by_cases hblurry : (reconcile s.settings.add.preferLocal old c).survivor = .incoming ∨
          old.Relabels c
      · exact hclear ⟨key, old, hkey, hold, hblurry, e, he, hne, hsame⟩
      · -- What stays is the old record, which was apart from the others with fewer attributes set.
        push Not at hblurry
        obtain ⟨hno, hrelabels⟩ := hblurry
        have hstays : (reconcile s.settings.add.preferLocal old c).survivor = .stored := by
          cases hsurvivor : (reconcile s.settings.add.preferLocal old c).survivor with
          | stored => rfl
          | incoming => exact absurd hsurvivor hno
        have hagree := agree_bundleKind_of_existing? hunique hkey hold
        have hrefines := refines_reconcile_stored hagree hrelabels hstays
        have hbefore := h.keyed.apart_iff.1 hapart _ hentry e he hne.symm
        rw [Reconciled.kept_of_stored hstays] at hsame
        exact Bool.false_ne_true (hbefore.symm.trans (hrefines.sameIdentity hsame))

theorem Apart.of_sublist (h : s.Apart) (hsub : t.entries.Sublist s.entries) : t.Apart :=
  apart_iff_pairwise.2 ((apart_iff_pairwise.1 h).sublist hsub)

theorem Apart.same (h : s.Apart) (k : SameCatalog s t) : t.Apart :=
  h.of_sublist (k.entries ▸ List.Sublist.refl _)

/-- Where nothing comes in, components stay apart. -/
theorem Apart.move (h : s.Apart) (k : Move (fun _ => False) s t) : t.Apart := by
  cases k with
  | aside | inhibit | release => exact h
  | add hno => exact hno.elim
  | remove key =>
    cases hc : s.find? key with
    | none =>
      rw [removeKey_of_none hc]
      exact h
    | some c =>
      apply h.of_sublist
      rw [(removed_removeKey hc).entries]
      exact List.filter_sublist
  | strip filename count key =>
    rcases stripKey_cases filename (count, s) key with ⟨-, hsame⟩ | ⟨c, -, ⟨-, k⟩ | ⟨-, k⟩⟩
    · rw [hsame]
      exact h
    · apply h.of_sublist
      rw [k.entries]
      exact List.filter_sublist
    · have hsame (e : Nat × Component) (d : Component) :
          d.sameIdentity (alter key (·.removeFormatsOf filename) e).2 = d.sameIdentity e.2 := by
        unfold alter
        split <;> rfl
      rw [apart_iff_pairwise, k.entries, List.pairwise_map]
      refine (apart_iff_pairwise.1 h).imp ?_
      intro d e hde
      rw [hsame, Component.sameIdentity_comm, hsame, Component.sameIdentity_comm, hde]
  | forget _ => exact h
  | attachAddons => exact h.same s.sameCatalog_attachAddons
  | buildTokens => exact h.same s.sameCatalog_buildTokens
  | queryMetadata key value => exact h.same (s.sameCatalog_byMetadata key value)

theorem Apart.moves (h : s.Apart) (k : Moves (fun _ => False) s t) : t.Apart := by
  induction k with
  | refl => exact h
  | tail _ k ih => exact ih.move k

def Unpatched (s : Store) : Prop := ∀ id, s.patchesFor id = []

theorem Unpatched.of_patches (h : s.Unpatched) (heq : t.patches = s.patches) : t.Unpatched := by
  intro id
  unfold patchesFor
  rw [heq]
  exact h id

theorem Unpatched.move (h : s.Unpatched) (k : Move (fun _ => False) s t) : t.Unpatched := by
  rcases k.patches with heq | ⟨keep, rfl⟩
  · exact h.of_patches heq
  · intro id
    rw [patchesFor_keepPatches, h id, List.filter_nil]

theorem Unpatched.moves (h : s.Unpatched) (k : Moves (fun _ => False) s t) : t.Unpatched := by
  induction k with
  | refl => exact h
  | tail _ k ih => exact ih.move k

/-- A catalog with unique IDs that got standalone components only. -/
structure Unamended (s : Store) : Prop where
  indexed : s.WellIndexed
  unique : s.settings.add.useUniqueId = true
  unpatched : s.Unpatched

theorem Unamended.met_add (h : s.Unamended) (hid : c.id = some x)
    (hkind : c.mergeKind = .standalone) : Met c s (s.add c) := by
  have hpatch : c.mergeKind.isPatch = false := by simp [hkind, MergeKind.isPatch]
  have hmet := s.met_add hid hpatch
  rw [patched_of_none (h.unpatched x)] at hmet
  exact hmet

theorem Unamended.add (h : s.Unamended) (hproper : c.Proper) (hkind : c.mergeKind = .standalone) :
    (s.add c).Unamended where
  indexed := h.indexed.step (.add hproper)
  unique := by
    rw [(s.setup_add c).settings]
    exact h.unique
  unpatched :=
    h.unpatched.of_patches (s.patches_add_of_not (MergeKind.isPatch_eq_false_iff.2 hkind))

theorem Unamended.apply (h : s.Unamended) {op : Operation} (hop : op.adds = false) :
    (s.apply op).Unamended where
  indexed := h.indexed.edits (edits_apply s hop)
  unique := by
    rw [(edits_apply s hop).setup.settings]
    exact h.unique
  unpatched := by
    by_cases hstem : ∃ stem, op = .withStemmer stem
    · obtain ⟨stem, rfl⟩ := hstem
      exact h.unpatched.of_patches (s.sameCatalog_withStemmer stem).patches
    · push Not at hstem
      exact h.unpatched.moves (s.moves_apply_of_not_adds hop hstem)

theorem Apart.apply (h : s.Apart) {op : Operation} (hop : op.adds = false) :
    (s.apply op).Apart := by
  by_cases hstem : ∃ stem, op = .withStemmer stem
  · obtain ⟨stem, rfl⟩ := hstem
    exact h.same (s.sameCatalog_withStemmer stem)
  · push Not at hstem
    exact h.moves (s.moves_apply_of_not_adds hop hstem)

/-- One addition leaves components apart if and only if it does not blur them. -/
theorem Unamended.apart_add_iff (h : s.Unamended) (hapart : s.Apart) (hproper : c.Proper)
    (hkind : c.mergeKind = .standalone) : (s.add c).Apart ↔ ¬ Blurs s c := by
  cases hid : c.id with
  | none =>
    rw [add_of_no_id hid]
    refine iff_of_true hapart ?_
    rintro ⟨key, -, hkey, -⟩
    unfold existing? at hkey
    rw [hid] at hkey
    cases hkey
  | some x =>
    have hadded := h.add hproper hkind
    exact h.indexed.apart_met_iff hadded.indexed h.unique hid hapart (h.met_add hid hkind)

/-- Whether an operation reads no source. -/
def Operation.sourceless : Operation → Bool
  | .loadBytes .. | .loadPath .. | .loadUserLocations .. | .fileChange .. => false
  | _ => true

/-- What comes in one addition at a time is what the operations bring. -/
theorem unroll_cases {p : Component → Prop} {op : Operation} (hop : op.Brings p)
    (hsourceless : op.sourceless = true) :
    ∀ a ∈ s.unroll op, (∃ c, a = .add c ∧ p c) ∨ a.adds = false := by
  cases op with
  | add c =>
    intro a ha
    exact .inl ⟨c, List.mem_singleton.1 ha, hop⟩
  | addMany cs =>
    intro a ha
    simp only [unroll, unrollMany, List.cons_append, List.mem_cons, List.mem_append, List.mem_map,
      List.not_mem_nil, or_false] at ha
    rcases ha with rfl | ⟨c, hc, rfl⟩ | rfl
    · exact .inr rfl
    · exact .inl ⟨c, rfl, hop c hc⟩
    · exact .inr rfl
  | loadBytes bytes name w => cases hsourceless
  | loadPath files w cancel path => cases hsourceless
  | loadUserLocations files cancelled dataHome home => cases hsourceless
  | fileChange files change path => cases hsourceless
  | _ =>
    intro a ha
    rw [List.mem_singleton.1 ha]
    exact .inr rfl

theorem unrollAll_cases {p : Component → Prop} {ops : List Operation}
    (hops : ∀ op ∈ ops, op.sourceless = true ∧ Operation.Brings p op) :
    ∀ a ∈ s.unrollAll ops, (∃ c, a = .add c ∧ p c) ∨ a.adds = false := by
  induction ops generalizing s with
  | nil => simp [unrollAll]
  | cons op ops ih =>
    obtain ⟨hsourceless, hop⟩ := hops op List.mem_cons_self
    intro a ha
    rcases List.mem_append.1 ha with ha | ha
    · exact unroll_cases hop hsourceless a ha
    · exact ih (fun op' h => hops op' (List.mem_cons_of_mem op h)) a ha

theorem unamended_new {settings : Settings} (reader : Reader)
    (h : settings.add.useUniqueId = true) : (new settings reader).Unamended :=
  ⟨wellIndexed_new settings reader, h, fun _ => rfl⟩

/-- With unique IDs, and standalone components only, no two stored components can describe the same
one throughout a run if and only if no addition of the run blurs what tells components apart. -/
theorem apart_throughout_iff {settings : Settings} (reader : Reader)
    (hunique : settings.add.useUniqueId = true) {ops : List Operation}
    (hops : ∀ op ∈ ops, op.sourceless = true ∧
      op.Brings fun c => c.Proper ∧ c.mergeKind = .standalone) :
    (new settings reader).run (unrollAll (new settings reader) ops) =
      (new settings reader).run ops ∧
    ((∀ done later, unrollAll (new settings reader) ops = done ++ later →
        ((new settings reader).run done).Apart) ↔
      ∀ done c later, unrollAll (new settings reader) ops = done ++ .add c :: later →
        ¬ Blurs ((new settings reader).run done) c) := by
  have hempty : (new settings reader).Apart := List.Pairwise.nil
  have hinv (s : Store) (op : Operation)
      (hop : (∃ c, op = .add c ∧ c.Proper ∧ c.mergeKind = .standalone) ∨ op.adds = false)
      (hs : s.Unamended) : (s.apply op).Unamended := by
    rcases hop with ⟨c, rfl, hproper, hkind⟩ | hop
    · exact hs.add hproper hkind
    · exact hs.apply hop
  refine ⟨run_unrollAll _ ops, ?_⟩
  refine run_throughout_iff hinv ?_ ?_ (unamended_new reader hunique) hempty (unrollAll_cases hops)
  · intro s c hop hs hapart
    rcases hop with ⟨d, heq, hproper, hkind⟩ | hop
    · obtain rfl := Operation.add.inj heq
      exact hs.apart_add_iff hapart hproper hkind
    · cases hop
  · intro s op hop hno _ hapart
    rcases hop with ⟨c, heq, -⟩ | hop
    · exact absurd heq (hno c)
    · exact hapart.apply hop

/-- A tool that is there for the users of one scope. -/
def toolIn (scope : Scope) : Component := { Component.ofId "org.example.Tool" with scope }

/-- The same tool, where a source of higher priority does not say for whom. -/
def preferredTool : Component := { Component.ofId "org.example.Tool" with priority := 1 }

/-- An addition of these blurs whom the tool is for. -/
theorem exists_blurs :
    ∃ done c later,
      unrollAll (new ⟨⟨true, false, false⟩, {}, ⟨["en"], 4, true, 3⟩⟩ Reader.any)
        [.addMany [toolIn .user, toolIn .system], .add preferredTool] = done ++ .add c :: later ∧
      Blurs ((new ⟨⟨true, false, false⟩, {}, ⟨["en"], 4, true, 3⟩⟩ Reader.any).run done) c := by
  have hops : ∀ op ∈ [Operation.addMany [toolIn .user, toolIn .system], .add preferredTool],
      op.sourceless = true ∧ op.Brings fun c => c.Proper ∧ c.mergeKind = .standalone := by
    intro op hop
    simp only [List.mem_cons, List.not_mem_nil, or_false] at hop
    rcases hop with rfl | rfl
    · refine ⟨rfl, ?_⟩
      intro c hc
      simp only [List.mem_cons, List.not_mem_nil, or_false] at hc
      rcases hc with rfl | rfl <;> decide +kernel
    · exact ⟨rfl, by decide +kernel, rfl⟩
  by_contra hno
  push Not at hno
  have hall := (apart_throughout_iff Reader.any rfl hops).2.2 hno
  have hend := hall _ [] (List.append_nil _).symm
  exact absurd hend (by decide +kernel)

/-- Two records can describe the same tool, the one for the system and the preferred one. -/
theorem not_apart_after_preferred :
    (∀ c ∈ [toolIn .user, toolIn .system, preferredTool],
      c.Proper ∧ c.mergeKind = .standalone) ∧
    ¬ ((new ⟨⟨true, false, false⟩, {}, ⟨["en"], 4, true, 3⟩⟩ Reader.any).run
      [.add (toolIn .user), .add (toolIn .system), .add preferredTool]).Apart := by
  refine ⟨?_, by decide +kernel⟩
  intro c hc
  simp only [List.mem_cons, List.not_mem_nil, or_false] at hc
  rcases hc with rfl | rfl | rfl <;> decide +kernel

end SoftwareCatalog.Store
