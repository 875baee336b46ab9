import SoftwareCatalog.Proofs.Store.PkgnameIndex
import SoftwareCatalog.Proofs.Store.Removal

namespace SoftwareCatalog.Store

variable {s t u : Store} {key : Nat} {c old : Component} {p : String}

theorem Thinned.sameCatalog (h : Thinned p s t) (k : SameCatalog t u) : Thinned p s u :=
  h.same k.entries k.keyByPkgname

theorem Thinned.removeKey (h : Thinned p s t) (ht : t.Keyed)
    (hsub : ∀ e ∈ t.entries, e ∈ s.entries) (key : Nat) : Thinned p s (t.removeKey key) := by
  cases hold : t.find? key with
  | none =>
    rw [removeKey_of_none hold]
    exact h
  | some old =>
    have hentry := mem_entries_of_find? hold
    exact h.drop ht hentry (hsub _ hentry) (removed_removeKey hold) (fun hp => hp)
      (keyByPkgname_removeKey hold p)

theorem mem_entries_removeKey {key : Nat} {e : Nat × Component}
    (h : e ∈ (s.removeKey key).entries) : e ∈ s.entries := by
  rw [entries_removeKey] at h
  exact List.mem_of_mem_filter h

theorem thinned_removeKeys (hs : s.WellIndexed) (h : s.Named p) (keys : List Nat) :
    Thinned p s (s.removeKeys keys).2 := by
  have hfold (keys : List Nat) (r : Nat × Store) (hthinned : Thinned p s r.2)
      (hr : r.2.WellIndexed) (hsub : ∀ e ∈ r.2.entries, e ∈ s.entries) :
      Thinned p s (keys.foldl (fun r k =>
        (r.1 + (r.2.find? k).toList.length, r.2.removeKey k)) r).2 := by
    induction keys generalizing r with
    | nil => exact hthinned
    | cons key keys ih =>
      apply ih
      · exact hthinned.removeKey hr.keyed hsub key
      · exact hr.edits (edits_removeKey r.2 key)
      · exact fun e he => hsub e (mem_entries_removeKey he)
  have hinhibit := s.sameCatalog_inhibit
  have hbatch : Thinned p s (s.inhibit.2.removeEach keys).2 := by
    apply hfold keys (0, s.inhibit.2)
    · exact .of_named h hinhibit.entries hinhibit.keyByPkgname
    · exact hs.same hinhibit.sameIndices
    · exact fun e he => hinhibit.entries ▸ he
  exact (hbatch.sameCatalog (sameCatalog_release _ _)).sameCatalog (sameCatalog_settle _)

theorem ne_removeFormatsOf {filename : String} (h : c.hasSourceFile filename = true) :
    c.removeFormatsOf filename ≠ c := by
  intro heq
  obtain ⟨f, hf, hfile⟩ := List.any_eq_true.1 h
  rw [← heq] at hf
  have hother := (List.mem_filter.1 hf).2
  simp only [bne_iff_ne, ne_eq] at hother
  exact hother (beq_iff_eq.1 hfile)

theorem Thinned.stripKey (h : Thinned p s t) (hs : s.Keyed) (ht : t.Keyed) {filename : String}
    (huntouched : ∀ b, (key, b) ∈ t.entries → (key, b) ∈ s.entries ∧ b.hasSourceFile filename)
    (count : Nat) : Thinned p s (stripKey filename (count, t) key).2 := by
  unfold Store.stripKey
  cases hold : t.find? key with
  | none => exact h
  | some old =>
    have hstripped := find?_withoutFile hold filename
    have hentry := mem_entries_of_find? hold
    obtain ⟨hsame, hfile⟩ := huntouched _ hentry
    simp only
    split
    · exact h.drop ht hentry hsame (removed_modify_removeKey hstripped fun _ => rfl)
        (fun hp => hp) (keyByPkgname_removeKey hstripped p)
    · have k : Altered key (·.removeFormatsOf filename) old.bare t
          ((t.modify key (Record.withoutFile filename)).refresh key old.uniqueId) :=
        altered_refresh hstripped (fun _ => rfl) (fun _ => rfl) rfl
      have hnew : (key, old.bare.removeFormatsOf filename) ∉ s.entries := fun hin =>
        ne_removeFormatsOf hfile (hs.component_eq hin hsame)
      exact h.renew ht hentry k rfl hnew (keyByPkgname_refresh hstripped _ p)

/-- Stripping a record leaves the entries of others. -/
theorem mem_entries_stripKey (ht : t.Keyed) {filename : String} {count n : Nat} {b : Component}
    (h : (n, b) ∈ (stripKey filename (count, t) key).2.entries) (hne : n ≠ key) :
    (n, b) ∈ t.entries := by
  rcases stripKey_cases filename (count, t) key with ⟨-, hsame⟩ | ⟨c, hc, ⟨-, k⟩ | ⟨-, k⟩⟩
  · rwa [hsame] at h
  · exact (k.mem_iff.1 h).2
  · rcases (k.mem_iff ht (mem_entries_of_find? hc)).1 h with ⟨hkey, -⟩ | ⟨-, hin⟩
    · exact absurd hkey hne
    · exact hin

theorem nodup_keysWhere (hs : s.Keyed) (q : Component → Bool) : (s.keysWhere q).Nodup :=
  hs.nodup_keys.sublist (List.filter_sublist.map Record.key)

theorem thinned_removeBySourceFile (hs : s.WellIndexed) (h : s.Named p) (filename : String) :
    Thinned p s (s.removeBySourceFile filename).2 := by
  have hfold (keys : List Nat) (hnodup : keys.Nodup) (r : Nat × Store)
      (hthinned : Thinned p s r.2) (hr : r.2.WellIndexed)
      (huntouched : ∀ key ∈ keys, ∀ b, (key, b) ∈ r.2.entries →
        (key, b) ∈ s.entries ∧ b.hasSourceFile filename) :
      Thinned p s (keys.foldl (Store.stripKey filename) r).2 := by
    induction keys generalizing r with
    | nil => exact hthinned
    | cons key keys ih =>
      obtain ⟨hkey, hnodup⟩ := List.nodup_cons.1 hnodup
      apply ih hnodup
      · exact hthinned.stripKey hs.keyed hr.keyed (huntouched key List.mem_cons_self) r.1
      · exact hr.edits (edits_stripKey filename r key)
      · -- each record is stripped once, so it comes to its turn as it was in `s`
        intro key' hkey' b hb
        have hne : key' ≠ key := fun heq => hkey (heq ▸ hkey')
        exact huntouched key' (List.mem_cons_of_mem key hkey') b
          (mem_entries_stripKey hr.keyed hb hne)
  have hinhibit := s.sameCatalog_inhibit
  have hindexed := hs.same hinhibit.sameIndices
  have hstripped : Thinned p s ((s.inhibit.2.keysWhere (·.hasSourceFile filename)).foldl
      (Store.stripKey filename) (0, s.inhibit.2)).2 := by
    apply hfold _ (nodup_keysWhere hindexed.keyed _)
    · exact .of_named h hinhibit.entries hinhibit.keyByPkgname
    · exact hindexed
    · intro key hkey b hb
      obtain ⟨r, hr, rfl⟩ := List.mem_map.1 hkey
      obtain ⟨hstored, hfile⟩ := List.mem_filter.1 hr
      have hentry : (r.key, r.component.bare) ∈ s.entries := List.mem_map_of_mem hstored
      obtain rfl := hs.keyed.component_eq hentry hb
      exact ⟨hentry, hfile⟩
  have hdropped : Thinned p s (((s.inhibit.2.keysWhere (·.hasSourceFile filename)).foldl
      (Store.stripKey filename) (0, s.inhibit.2)).2.dropPatchesOf filename) :=
    hstripped.same rfl rfl
  exact (hdropped.sameCatalog (sameCatalog_release _ _)).sameCatalog (sameCatalog_settle _)

theorem thinned_apply (hs : s.WellIndexed) (h : s.Named p) {op : Operation}
    (hadds : op.adds = false) : Thinned p s (s.apply op) := by
  have hsame {t : Store} (k : SameCatalog s t) : Thinned p s t :=
    .of_named h k.entries k.keyByPkgname
  cases op with
  | remove c =>
    change Thinned p s (s.remove c).2
    unfold Store.remove
    split
    · exact hsame (.refl s)
    · exact (hsame (.refl s)).removeKey hs.keyed (fun _ he => he) _
  | removeById id => exact thinned_removeKeys hs h _
  | removeByUniqueId uniqueId => exact thinned_removeKeys hs h _
  | removeByMetadata key value => exact thinned_removeKeys hs h _
  | removeBySourceFile filename => exact thinned_removeBySourceFile hs h filename
  | removeAll =>
    have hremoved := thinned_removeKeys hs h (s.records.map Record.key)
    have hforgotten : Thinned p s
        { (s.removeKeys (s.records.map Record.key)).2 with patches := .empty } :=
      hremoved.same rfl rfl
    exact hforgotten.sameCatalog (sameCatalog_settle _)
  | attachAddons => exact hsame s.sameCatalog_attachAddons
  | inhibit => exact hsame s.sameCatalog_inhibit
  | release guard => exact hsame (s.sameCatalog_release guard)
  | purgePool => exact hsame s.sameCatalog_purgePool
  | queryMetadata key value => exact hsame (s.sameCatalog_byMetadata key value)
  | search query =>
    change Thinned p s (s.search query).2
    unfold Store.search
    split
    · exact hsame (.refl s)
    · exact hsame s.sameCatalog_buildTokens
  | buildTokens => exact hsame s.sameCatalog_buildTokens
  | withStemmer stem => exact hsame (s.sameCatalog_withStemmer stem)
  | _ => cases hadds

section Insert

variable {rest : Store}

/-- A new record is no sign that the ones before were left alone. -/
theorem not_deserted_insert (hs : s.Keyed) (hkey : s.nextKey ≤ rest.nextKey)
    (hp : p ∈ c.pkgnames) : ¬ Deserted s (rest.insert c) p := by
  intro hdeserted
  obtain ⟨-, -, -, -, hsame⟩ := hdeserted
  have hin := hsame _ ((inserted_insert rest c).mem_iff.2 (.inr ⟨rfl, rfl⟩)) hp
  exact absurd (hs.fresh _ hin) (Nat.not_lt.2 hkey)

/-- A new record that does not list the name has no part in who lists it. -/
theorem listed_insert_iff (hp : p ∉ c.pkgnames) {e : Nat × Component} :
    e ∈ (rest.insert c).entries ∧ p ∈ e.2.pkgnames ↔ e ∈ rest.entries ∧ p ∈ e.2.pkgnames := by
  have hmem {n : Nat} {d : Component} := (inserted_insert rest c).mem_iff (n := n) (d := d)
  constructor
  · intro hboth
    rcases hmem.1 hboth.1 with hin | ⟨-, hnew⟩
    · exact ⟨hin, hboth.2⟩
    · have hbare := hboth.2
      rw [hnew] at hbare
      exact absurd hbare hp
  · intro hboth
    exact ⟨hmem.2 (.inl hboth.1), hboth.2⟩

theorem named_insert_iff (hp : p ∉ c.pkgnames) : (rest.insert c).Named p ↔ rest.Named p := by
  have hindex := rest.keyByPkgname_insert c p
  rw [if_neg hp] at hindex
  constructor
  · intro h
    refine ⟨?_, ?_⟩
    · intro n hn
      obtain ⟨d, hd, hdp⟩ := h.right n (hindex.trans hn)
      exact ⟨d, (listed_insert_iff hp).1 ⟨hd, hdp⟩⟩
    · intro hnone e he hep
      exact h.covered (hindex.trans hnone) e ((listed_insert_iff hp).2 ⟨he, hep⟩).1 hep
  · exact fun h => h.insert c

theorem deserted_insert_iff (h : s.LeadsName p) (hs : s.Keyed) (hkey : s.nextKey ≤ rest.nextKey)
    (hp : p ∉ c.pkgnames) : Deserted s (rest.insert c) p ↔ Deserted s rest p := by
  have hmem {n : Nat} {d : Component} := (inserted_insert rest c).mem_iff (n := n) (d := d)
  have hgone {n : Nat} (hn : s.keyByPkgname.get? p = some n) :
      (∀ e ∈ (rest.insert c).entries, e.1 ≠ n) ↔ ∀ e ∈ rest.entries, e.1 ≠ n := by
    constructor
    · exact fun hall e he => hall e (hmem.2 (.inl he))
    · intro hall e he
      rcases hmem.1 he with hin | ⟨hnew, -⟩
      · exact hall e hin
      · obtain ⟨d, hd⟩ := h n hn
        have hfresh := hs.fresh _ hd
        rw [hnew]
        exact Nat.ne_of_gt (Nat.lt_of_lt_of_le hfresh hkey)
  unfold Deserted
  refine exists_congr fun n => and_congr_right fun hn => and_congr (hgone hn) ?_
  refine and_congr (exists_congr fun e => listed_insert_iff hp) (forall_congr' fun e => ?_)
  rw [← and_imp, ← and_imp, listed_insert_iff hp]

end Insert

/-- What comes of a component leaves a package name right unless the name is deserted. -/
theorem named_encounter (hs : s.Keyed) (h : s.Named p) (k : Encounter s c t) :
    t.LeadsName p ∧ (t.Named p ↔ ¬ Deserted s t p) := by
  have hkept (hnamed : t.Named p) (hstay : ∀ e ∈ s.entries, ∃ d, (e.1, d) ∈ t.entries) :
      t.LeadsName p ∧ (t.Named p ↔ ¬ Deserted s t p) :=
    ⟨hnamed.leads, iff_of_true hnamed (h.not_deserted hstay)⟩
  cases k with
  | inserted _ =>
    exact hkept (h.insert c) fun e he => ⟨e.2, (inserted_insert s c).mem_iff.2 (.inl he)⟩
  | @merged key old hmeets =>
    have hnames := pkgnames_reconcile_stored s.settings.add.preferLocal old c
    exact hkept (h.update hs hmeets.found fun hp => hnames hp)
      (mem_update_of_mem hs hmeets.found _)
  | @replaced key old hmeets =>
    have hstored := find?_replaced hmeets.found (s.verdict old c).stored
    have hentry := mem_entries_of_find? hmeets.found
    have hremoved : Removed key (s.verdict old c).stored s ((s.modify key fun e =>
        e.replace (s.verdict old c).stored).removeKey key) :=
      removed_modify_removeKey hstored fun _ => rfl
    have hnames := pkgnames_reconcile_stored s.settings.add.preferLocal old c
    have hrest : Thinned p s ((s.modify key fun e =>
        e.replace (s.verdict old c).stored).removeKey key) :=
      (Thinned.of_named h rfl rfl).drop hs hentry hentry hremoved (fun hp => hnames hp)
        (keyByPkgname_removeKey hstored p)
    generalize (s.modify key fun e => e.replace (s.verdict old c).stored).removeKey key = rest
      at hremoved hrest
    have hkey : s.nextKey ≤ rest.nextKey := Nat.le_of_eq hremoved.nextKey.symm
    by_cases hp : p ∈ (s.verdict old c).incoming.pkgnames
    · have hnamed := named_insert_of_mem rest hp
      exact ⟨hnamed.leads, iff_of_true hnamed (not_deserted_insert hs hkey hp)⟩
    · refine ⟨?_, ?_⟩
      · intro n hn
        rw [keyByPkgname_insert, if_neg hp] at hn
        obtain ⟨d, hd⟩ := hrest.leads n hn
        exact ⟨d, (inserted_insert _ _).mem_iff.2 (.inl hd)⟩
      · rw [named_insert_iff hp, deserted_insert_iff h.leads hs hkey hp]
        exact hrest.named_iff h

theorem Named.given {patch : Component} {keys : List Nat} (h : s.Named p) (hs : s.WellIndexed)
    (hpatch : ¬ TakesName patch p) : (s.given patch keys).Named p := by
  induction keys generalizing s with
  | nil => exact h
  | cons key keys ih =>
    cases hold : s.find? key with
    | none =>
      rw [given_cons_of_none hold]
      exact ih h hs
    | some old =>
      exact ih (h.update hs.keyed hold (mem_pkgnames_patch hpatch))
        (hs.edits (edits_update s key fun _ => rfl))

theorem keyByPkgname_given {patch : Component} {keys : List Nat} (hpatch : TakesName patch p) :
    (s.given patch keys).keyByPkgname.get? p = s.keyByPkgname.get? p := by
  induction keys generalizing s with
  | nil => rfl
  | cons key keys ih =>
    have hfirst : (s.update key fun c => c.subsume (patchFlags patch) patch).keyByPkgname.get? p =
        s.keyByPkgname.get? p := by
      cases hold : s.find? key with
      | none => rw [update_of_none hold]
      | some old => rw [keyByPkgname_update hold, if_neg (hpatch.not_mem old)]
    exact Eq.trans ih hfirst

/-- A patch that takes a package name leaves it right unless it is given to the record that the name
leads to. -/
theorem named_given_iff {patch : Component} {keys : List Nat} (hs : s.WellIndexed)
    (hnodup : keys.Nodup) (h : s.Named p) (hpatch : TakesName patch p) :
    (s.given patch keys).Named p ↔ ∀ key ∈ keys, s.keyByPkgname.get? p ≠ some key := by
  have hindex : (s.given patch keys).keyByPkgname.get? p = s.keyByPkgname.get? p :=
    keyByPkgname_given hpatch
  have hmem {n : Nat} {d : Component} : (n, d) ∈ (s.given patch keys).entries ↔
      (n ∉ keys ∧ (n, d) ∈ s.entries) ∨
      (n ∈ keys ∧ ∃ b, (n, b) ∈ s.entries ∧ d = b.subsume (patchFlags patch) patch) :=
    hs.mem_given hnodup
  constructor
  · intro hnamed key hkey hleads
    obtain ⟨c, hc, hp⟩ := hnamed.right key (hindex.trans hleads)
    rcases hmem.1 hc with ⟨hno, -⟩ | ⟨-, b, -, rfl⟩
    · exact hno hkey
    · exact hpatch.not_mem b hp
  · intro hothers
    refine ⟨?_, ?_⟩
    · intro n hn
      rw [hindex] at hn
      obtain ⟨c, hc, hp⟩ := h.right n hn
      exact ⟨c, hmem.2 (.inl ⟨fun hin => hothers n hin hn, hc⟩), hp⟩
    · intro hnone e he
      rw [hindex] at hnone
      rcases hmem.1 he with ⟨-, hin⟩ | ⟨-, b, -, hnew⟩
      · exact h.covered hnone e hin
      · rw [hnew]
        exact hpatch.not_mem b

theorem WellIndexed.mem_given_of_mem {patch : Component} {keys : List Nat} (hs : s.WellIndexed)
    (hnodup : keys.Nodup) : ∀ e ∈ s.entries, ∃ c, (e.1, c) ∈ (s.given patch keys).entries := by
  intro e he
  by_cases hkey : e.1 ∈ keys
  · exact ⟨_, (hs.mem_given hnodup).2 (.inr ⟨hkey, e.2, he, rfl⟩)⟩
  · exact ⟨e.2, (hs.mem_given hnodup).2 (.inl ⟨hkey, he⟩)⟩

/-- An operation leaves a package name without a record that it should lead to: the record that it
leads to goes while all others that list the name stay as they are, or a patch takes the name from
that record. -/
inductive Misleads (s : Store) (op : Operation) (p : String) : Prop
  | deserts (h : Deserted s (s.apply op) p)
  | takes {patch : Component} {id : String} {key : Nat} (hop : op = .add patch)
    (hid : patch.id = some id) (hpatch : TakesName patch p)
    (hkey : s.keyByPkgname.get? p = some key) (htarget : key ∈ s.targets id patch)

/-- A patch deserts no name, and takes one only where it is given to the record that the name leads
to. -/
theorem misleads_patch_iff {id : String} (h : s.Named p) (hid : c.id = some id)
    (hpatch : TakesName c p) (hstay : ∀ e ∈ s.entries, ∃ d, (e.1, d) ∈ (s.add c).entries) :
    Misleads s (.add c) p ↔ ¬ ∀ key ∈ s.targets id c, s.keyByPkgname.get? p ≠ some key := by
  constructor
  · intro hmisleads hothers
    cases hmisleads with
    | deserts hdeserted => exact h.not_deserted hstay hdeserted
    | takes hop hid' _ hkey htarget =>
      obtain rfl := Operation.add.inj hop
      obtain rfl := Option.some.inj (hid.symm.trans hid')
      exact hothers _ htarget hkey
  · intro hsome
    push Not at hsome
    obtain ⟨key, htarget, hkey⟩ := hsome
    exact .takes rfl hid hpatch hkey htarget

theorem misleads_iff {op : Operation} (hop : ∀ patch, op = .add patch → ¬ TakesName patch p) :
    Misleads s op p ↔ Deserted s (s.apply op) p := by
  constructor
  · intro hmisleads
    cases hmisleads with
    | deserts hdeserted => exact hdeserted
    | takes hadd _ hpatch => exact absurd hpatch (hop _ hadd)
  · exact fun hdeserted => .deserts hdeserted

theorem named_add_patch_iff {id : String} (hs : s.WellIndexed) (h : s.Named p)
    (hid : c.id = some id) (hkind : c.mergeKind.isPatch = true) :
    (s.add c).LeadsName p ∧ ((s.add c).Named p ↔ ¬ Misleads s (.add c) p) := by
  obtain ⟨pool, patches, heq⟩ := s.add_eq_given hid hkind
  have hpooled : ({ s with pool } : Store).WellIndexed := hs.same ⟨rfl, rfl, rfl, rfl, rfl, rfl⟩
  have hnodup := hs.nodup_targets id c
  have hstay : ∀ e ∈ s.entries, ∃ d, (e.1, d) ∈ (s.add c).entries := by
    rw [heq]
    exact hpooled.mem_given_of_mem hnodup
  have hnamed : ({ s with pool } : Store).Named p := h.congr rfl rfl
  have hgiven : (s.add c).Named p ↔
      (({ s with pool } : Store).given c (s.targets id c)).Named p := by
    rw [heq]
    exact ⟨fun k => k.congr rfl rfl, fun k => k.congr rfl rfl⟩
  by_cases hpatch : TakesName c p
  · refine ⟨?_, ?_⟩
    · intro n hn
      have hindex : (({ s with pool } : Store).given c (s.targets id c)).keyByPkgname.get? p =
          s.keyByPkgname.get? p := keyByPkgname_given hpatch
      rw [heq] at hn
      obtain ⟨d, hd⟩ := h.leads n (hindex.symm.trans hn)
      exact hstay _ hd
    · rw [hgiven, named_given_iff hpooled hnodup hnamed hpatch,
        misleads_patch_iff h hid hpatch hstay, not_not]
  · have hafter := hgiven.2 (hnamed.given hpooled hpatch)
    refine ⟨hafter.leads, iff_of_true hafter ?_⟩
    rw [misleads_iff fun patch hop => by rwa [← Operation.add.inj hop]]
    exact h.not_deserted hstay

theorem named_add_iff (hs : s.WellIndexed) (h : s.Named p) (c : Component) :
    (s.add c).LeadsName p ∧ ((s.add c).Named p ↔ ¬ Misleads s (.add c) p) := by
  have hstandalone (hkind : c.mergeKind.isPatch = false) :
      Misleads s (.add c) p ↔ Deserted s (s.add c) p := by
    apply misleads_iff
    intro patch hop hpatch
    obtain rfl := Operation.add.inj hop
    rw [hpatch.1] at hkind
    cases hkind
  cases hid : c.id with
  | none =>
    have hsame := add_of_no_id (s := s) hid
    have hstay : ∀ e ∈ s.entries, ∃ d, (e.1, d) ∈ (s.add c).entries := by
      rw [hsame]
      exact fun e he => ⟨e.2, he⟩
    have hno : ¬ Misleads s (.add c) p := by
      intro hmisleads
      cases hmisleads with
      | deserts hdeserted => exact h.not_deserted hstay hdeserted
      | takes hop hid' =>
        obtain rfl := Operation.add.inj hop
        rw [hid] at hid'
        cases hid'
    rw [hsame]
    exact ⟨h.leads, iff_of_true h hno⟩
  | some id =>
    cases hkind : c.mergeKind.isPatch with
    | true => exact named_add_patch_iff hs h hid hkind
    | false =>
      obtain ⟨pool, k⟩ := s.encounter_add hid hkind
      have hkeyed : ({ s with pool } : Store).Keyed := ⟨hs.keyed.ascending, hs.keyed.fresh⟩
      obtain ⟨hleads, hiff⟩ := named_encounter hkeyed (h.congr rfl rfl) k
      exact ⟨hleads, hiff.trans (not_congr (hstandalone hkind).symm)⟩

theorem named_apply_iff (hs : s.WellIndexed) (h : s.Named p) {op : Operation}
    (hadds : op.adds = false) :
    (s.apply op).LeadsName p ∧ ((s.apply op).Named p ↔ ¬ Misleads s op p) := by
  have hthinned := thinned_apply hs h hadds
  have hmisleads : Misleads s op p ↔ Deserted s (s.apply op) p := by
    apply misleads_iff
    intro patch hop
    rw [hop] at hadds
    cases hadds
  rw [hmisleads]
  exact ⟨hthinned.leads, hthinned.named_iff h⟩

end SoftwareCatalog.Store
