import SoftwareCatalog.Proofs.Store.Stages

namespace SoftwareCatalog.Store

/-- The first record with an ID that has a unique ID. -/
def heir (s : Store) (id : Option String) (uniqueId : String) : Option Nat :=
  (id.toList.flatMap s.keysOf).find? fun k => (s.find? k).any (·.uniqueId == uniqueId)

theorem heir_congr {s t : Store} (he : t.entries = s.entries) (hk : t.keysById = s.keysById)
    (id : Option String) (u : String) : t.heir id u = s.heir id u := by
  have hkeys : t.keysOf = s.keysOf := by
    funext x
    unfold keysOf
    rw [hk]
  have hp : Unattached (·.uniqueId == u) := fun _ => rfl
  have hany (k : Nat) : (t.find? k).any (·.uniqueId == u) = (s.find? k).any (·.uniqueId == u) := by
    rw [any_find? hp, any_find? hp, he]
  unfold heir
  simp only [hkeys, hany]

theorem get?_reindex (s : Store) (id : Option String) (u v : String) :
    (s.reindex id u).keyByUniqueId.get? v =
      if v = u then (s.heir id u).or (s.keyByUniqueId.get? v) else s.keyByUniqueId.get? v := by
  unfold reindex
  split
  · rename_i k hk
    have hheir : s.heir id u = some k := hk
    rw [TextMap.get?_insert, hheir, Option.some_or]
  · rename_i hk
    have hheir : s.heir id u = none := hk
    rw [hheir, Option.none_or, ite_self]

/-- The index of unique IDs after the one of a record was taken away. -/
theorem get?_unindex (s : Store) (key : Nat) (id : Option String) (u v : String) :
    (s.unindex key id u).keyByUniqueId.get? v =
      if v = u ∧ s.keyByUniqueId.get? u = some key then s.heir id u
      else s.keyByUniqueId.get? v := by
  unfold unindex
  by_cases hkey : s.keyByUniqueId.get? u = some key
  · have hheir : heir { s with keyByUniqueId := s.keyByUniqueId.erase u } id u = s.heir id u := rfl
    rw [if_pos hkey, get?_reindex, hheir]
    cases s.heir id u <;> by_cases hv : v = u <;> simp [hv, hkey]
  · simp [hkey]

/-- The keys of an ID as they are indexed: an ID without keys has no bucket. -/
def bucket (keys : List Nat) : Option (List Nat) := if keys = [] then none else some keys

theorem get?_dropKey (buckets : TextMap (List Nat)) (id x : String) (key : Nat) :
    (dropKey buckets id key).get? x =
      if x = id then bucket ((buckets.getD id []).filter (· ≠ key)) else buckets.get? x := by
  unfold dropKey
  generalize (buckets.getD id []).filter (· ≠ key) = keys
  cases keys with
  | nil => simp [bucket]
  | cons k keys => simp [bucket]

/-- What no change of single records touches. -/
structure SameRules (s t : Store) : Prop where
  settings : t.settings = s.settings
  reader : t.reader = s.reader
  patches : t.patches = s.patches

theorem SameCatalog.rules {s t : Store} (h : SameCatalog s t) : SameRules s t :=
  ⟨h.settings, h.reader, h.patches⟩

theorem SameRules.trans {s t u : Store} (h : SameRules s t) (k : SameRules t u) : SameRules s u :=
  ⟨k.settings.trans h.settings, k.reader.trans h.reader, k.patches.trans h.patches⟩

/-- What repairing the index of unique IDs leaves alone. -/
structure SameRecords (s t : Store) : Prop where
  rules : SameRules s t
  entries : t.entries = s.entries
  nextKey : t.nextKey = s.nextKey
  keysById : t.keysById = s.keysById

theorem SameCatalog.sameRecords {s t : Store} (h : SameCatalog s t) : SameRecords s t :=
  ⟨h.rules, h.entries, h.nextKey, h.keysById⟩

theorem SameRecords.trans {s t u : Store} (h : SameRecords s t) (k : SameRecords t u) :
    SameRecords s u :=
  ⟨h.rules.trans k.rules, k.entries.trans h.entries, k.nextKey.trans h.nextKey,
    k.keysById.trans h.keysById⟩

theorem SameRecords.keysOf {s t : Store} (h : SameRecords s t) : t.keysOf = s.keysOf := by
  funext x
  unfold Store.keysOf
  rw [h.keysById]

theorem SameRecords.heir {s t : Store} (h : SameRecords s t) (id : Option String) (u : String) :
    t.heir id u = s.heir id u :=
  heir_congr h.entries h.keysById id u

theorem sameRecords_unindex (s : Store) (key : Nat) (id : Option String) (u : String) :
    SameRecords s (s.unindex key id u) := by
  obtain ⟨keyByUniqueId, hunindex⟩ := s.exists_unindex key id u
  rw [hunindex]
  exact ⟨⟨rfl, rfl, rfl⟩, rfl, rfl, rfl⟩

theorem sameRecords_index (s : Store) (key : Nat) (c : Component) :
    SameRecords s (s.index key c) :=
  ⟨⟨rfl, rfl, rfl⟩, rfl, rfl, rfl⟩

/-- `t` is `s` with a component under the next key. -/
structure Inserted (c : Component) (s t : Store) : Prop where
  rules : SameRules s t
  entries : t.entries = s.entries ++ [(s.nextKey, c.bare)]
  nextKey : t.nextKey = s.nextKey + 1
  keysById : ∀ x, t.keysById.get? x =
    if c.id = some x then some (s.keysOf x ++ [s.nextKey]) else s.keysById.get? x
  keyByUniqueId : ∀ u, t.keyByUniqueId.get? u =
    if u = c.uniqueId then some s.nextKey else s.keyByUniqueId.get? u

/-- `t` is `s` with the component under a key changed by `g`; `old` is what it was. -/
structure Altered (key : Nat) (g : Component → Component) (old : Component) (s t : Store) :
    Prop where
  rules : SameRules s t
  entries : t.entries = s.entries.map (alter key g)
  nextKey : t.nextKey = s.nextKey
  keysById : t.keysById = s.keysById
  keyByUniqueId : ∀ u, t.keyByUniqueId.get? u =
    if u = (g old).uniqueId then some key
    else if u = old.uniqueId ∧ s.keyByUniqueId.get? u = some key then t.heir (g old).id u
    else s.keyByUniqueId.get? u

/-- `t` is `s` without a key; the indices were cleared of it as of the record of `c`. -/
structure Removed (key : Nat) (c : Component) (s t : Store) : Prop where
  rules : SameRules s t
  entries : t.entries = s.entries.filter (·.1 ≠ key)
  nextKey : t.nextKey = s.nextKey
  keysById : ∀ x, t.keysById.get? x =
    if c.id = some x then bucket ((s.keysOf x).filter (· ≠ key)) else s.keysById.get? x
  keyByUniqueId : ∀ u, t.keyByUniqueId.get? u =
    if u = c.uniqueId ∧ s.keyByUniqueId.get? u = some key then t.heir c.id u
    else s.keyByUniqueId.get? u

theorem Inserted.congr {c : Component} {s t t' : Store} (h : Inserted c s t)
    (k : SameCatalog t t') : Inserted c s t' where
  rules := h.rules.trans k.rules
  entries := k.entries.trans h.entries
  nextKey := k.nextKey.trans h.nextKey
  keysById x := by rw [k.keysById, h.keysById x]
  keyByUniqueId u := by rw [k.keyByUniqueId, h.keyByUniqueId u]

theorem Altered.congr {key : Nat} {g : Component → Component} {old : Component} {s t t' : Store}
    (h : Altered key g old s t) (k : SameCatalog t t') : Altered key g old s t' where
  rules := h.rules.trans k.rules
  entries := k.entries.trans h.entries
  nextKey := k.nextKey.trans h.nextKey
  keysById := k.keysById.trans h.keysById
  keyByUniqueId u := by rw [k.keyByUniqueId, h.keyByUniqueId u, k.sameRecords.heir]

theorem Removed.congr {key : Nat} {c : Component} {s t t' : Store} (h : Removed key c s t)
    (k : SameCatalog t t') : Removed key c s t' where
  rules := h.rules.trans k.rules
  entries := k.entries.trans h.entries
  nextKey := k.nextKey.trans h.nextKey
  keysById x := by rw [k.keysById, h.keysById x]
  keyByUniqueId u := by rw [k.keyByUniqueId, h.keyByUniqueId u, k.sameRecords.heir]

theorem Inserted.mem_iff {c : Component} {s t : Store} (h : Inserted c s t) {n : Nat}
    {d : Component} :
    (n, d) ∈ t.entries ↔ (n, d) ∈ s.entries ∨ (n = s.nextKey ∧ d = c.bare) := by
  rw [h.entries, List.mem_append, List.mem_singleton, Prod.mk.injEq]

theorem Altered.mem_iff {key : Nat} {g : Component → Component} {old : Component} {s t : Store}
    (h : Altered key g old s t) (hs : s.Keyed) (hold : (key, old) ∈ s.entries) {n : Nat}
    {d : Component} :
    (n, d) ∈ t.entries ↔ (n = key ∧ d = g old) ∨ (n ≠ key ∧ (n, d) ∈ s.entries) := by
  rw [h.entries, List.mem_map]
  constructor
  · intro hsome
    obtain ⟨⟨m, e⟩, he, heq⟩ := hsome
    by_cases hm : m = key
    · obtain rfl := hm
      have heold : e = old := hs.component_eq he hold
      simp only [alter, if_true, Prod.mk.injEq] at heq
      exact .inl ⟨heq.1.symm, by rw [← heq.2, heold]⟩
    · simp only [alter, hm, if_false, Prod.mk.injEq] at heq
      obtain ⟨rfl, rfl⟩ := heq
      exact .inr ⟨hm, he⟩
  · intro heither
    rcases heither with ⟨rfl, rfl⟩ | ⟨hn, hd⟩
    · exact ⟨_, hold, by simp [alter]⟩
    · exact ⟨_, hd, by simp [alter, hn]⟩

theorem Removed.mem_iff {key : Nat} {c : Component} {s t : Store} (h : Removed key c s t) {n : Nat}
    {d : Component} : (n, d) ∈ t.entries ↔ n ≠ key ∧ (n, d) ∈ s.entries := by
  rw [h.entries, List.mem_filter, decide_eq_true_eq]
  exact and_comm

theorem inserted_insert (s : Store) (c : Component) : Inserted c s (s.insert c) := by
  have hplaced : Inserted c s ((s.placed c).index s.nextKey c) := {
    rules := ⟨rfl, rfl, rfl⟩
    entries := by
      simp only [entries, placed, index, List.map_append, List.map_singleton]
      rfl
    nextKey := rfl
    keysById := fun x => by
      cases hid : c.id with
      | none => simp [placed, index, hid]
      | some id =>
        by_cases hx : x = id
        · simp [placed, index, hid, TextMap.get?_modifyD, keysOf, hx]
        · simp [placed, index, hid, TextMap.get?_modifyD, hx, Ne.symm hx]
    keyByUniqueId := fun u => TextMap.get?_insert .. }
  rw [insert_eq]
  exact hplaced.congr ((sameCatalog_linked _ c).trans (sameCatalog_announce _ _))

theorem sameRecords_renamed (s : Store) (key : Nat) (c : Component) (previous : String) :
    SameRecords s (s.renamed key c previous) := by
  obtain ⟨keyByUniqueId, hrenamed⟩ := s.exists_renamed key c previous
  rw [hrenamed]
  exact ⟨⟨rfl, rfl, rfl⟩, rfl, rfl, rfl⟩

theorem get?_renamed (s : Store) (key : Nat) (c : Component) (previous u : String) :
    (s.renamed key c previous).keyByUniqueId.get? u =
      if previous ≠ c.uniqueId ∧ u = previous ∧ s.keyByUniqueId.get? u = some key
        then s.heir c.id u else s.keyByUniqueId.get? u := by
  unfold renamed
  by_cases hne : previous ≠ c.uniqueId
  · rw [if_pos hne, get?_unindex]
    by_cases hu : u = previous <;> simp [hu, hne]
  · rw [if_neg hne]
    simp [hne]

/-- What a change of one record in place does, once what leads to the record is repaired. -/
theorem altered_refresh {s : Store} {key : Nat} {c : Component} {f : Record → Record}
    {g : Component → Component} (hc : (s.modify key f).find? key = some c)
    (hkey : ∀ r, (f r).key = r.key) (hbare : ∀ r, (f r).component.bare = g r.component.bare)
    {old : Component} (hnew : c.bare = g old) :
    Altered key g old s ((s.modify key f).refresh key old.uniqueId) := by
  have huid : (g old).uniqueId = c.uniqueId := by rw [← hnew, Component.bare_uniqueId]
  have hid : (g old).id = c.id := by rw [← hnew, Component.bare_id]
  rw [refresh_eq hc]
  generalize hrelinked : ((s.modify key f).unlinked c old.uniqueId).linked c = relinked
  have hsame : SameCatalog (s.modify key f) relinked := by
    rw [← hrelinked]
    exact (sameCatalog_unlinked _ c _).trans (sameCatalog_linked _ c)
  have hrecords := (relinked.sameRecords_renamed key c old.uniqueId).trans
    (sameRecords_index _ key c)
  have hfull := hsame.sameRecords.trans hrecords
  refine Altered.congr ⟨?_, ?_, hfull.nextKey, hfull.keysById, ?_⟩ (sameCatalog_announce _ _)
  · exact ⟨hfull.rules.settings, hfull.rules.reader, hfull.rules.patches⟩
  · exact hfull.entries.trans (entries_modify s key hkey hbare)
  · intro u
    have hbefore : relinked.keyByUniqueId = s.keyByUniqueId := hsame.keyByUniqueId
    rw [huid, hid, hrecords.heir]
    change ((relinked.renamed key c old.uniqueId).keyByUniqueId.insert c.uniqueId key).get? u = _
    rw [TextMap.get?_insert, get?_renamed, hbefore]
    by_cases hu : u = c.uniqueId
    · simp [hu]
    · by_cases ho : u = old.uniqueId
      · simp [ho, ho ▸ hu]
      · simp [hu, ho]

theorem find?_modify_self {s : Store} {key : Nat} {f : Record → Record} {c : Component}
    (hc : s.find? key = some c) {new : Component} (hkey : ∀ r, (f r).key = r.key)
    (hnew : ∀ r : Record, r.component = c → (f r).component = new) :
    (s.modify key f).find? key = some new := by
  obtain ⟨r, hr, rfl⟩ := Option.map_eq_some_iff.1 hc
  have hrk : r.key = key := by simpa using List.find?_some hr
  have hp : (fun e : Record => e.key == key) ∘ (fun e => if e.key = key then f e else e) =
      fun e => e.key == key := by
    funext e
    by_cases he : e.key = key <;> simp [he, hkey]
  unfold find? modify
  rw [List.find?_map, hp, hr]
  simp [hrk, hnew r rfl]

/-- The record that was changed in place, before what leads to it is repaired. -/
theorem find?_replaced {s : Store} {key : Nat} {old : Component} (hold : s.find? key = some old)
    (new : Component) : (s.modify key fun e => e.replace new).find? key = some new :=
  find?_modify_self hold (fun _ => rfl) fun _ _ => rfl

theorem altered_update {s : Store} {key : Nat} {c : Component} (hc : s.find? key = some c)
    (f : Component → Component) :
    Altered key (fun _ => (f c).bare) c.bare s (s.update key f) := by
  have h : Altered key (fun _ => (f c).bare) c.bare s
      ((s.modify key fun r => r.replace (f c)).refresh key c.bare.uniqueId) :=
    altered_refresh (find?_replaced hc (f c)) (fun _ => rfl) (fun _ => rfl) rfl
  rw [update_eq hc, ← c.bare_uniqueId]
  exact h

theorem removed_removeKey {s : Store} {key : Nat} {c : Component} (hc : s.find? key = some c) :
    Removed key c s (s.removeKey key) := by
  have hentries : (s.dropped key c).entries = s.entries.filter (·.1 ≠ key) := by
    unfold entries
    rw [List.filter_map]
    rfl
  have hkeysById (x : String) : (s.dropped key c).keysById.get? x =
      if c.id = some x then bucket ((s.keysOf x).filter (· ≠ key)) else s.keysById.get? x := by
    cases hid : c.id with
    | none => simp [dropped, hid]
    | some id =>
      by_cases hx : x = id
      · simp [dropped, hid, get?_dropKey, keysOf, hx]
      · simp [dropped, hid, get?_dropKey, hx, Ne.symm hx]
  rw [removeKey_eq hc]
  generalize hfreed : (s.dropped key c).unindex key c.id c.uniqueId = freed
  have hsame : SameCatalog freed (freed.unlinked c c.uniqueId) := freed.sameCatalog_unlinked c _
  have hrecords : SameRecords (s.dropped key c) (freed.unlinked c c.uniqueId) := by
    refine SameRecords.trans ?_ hsame.sameRecords
    rw [← hfreed]
    exact sameRecords_unindex ..
  refine Removed.congr ⟨?_, ?_, ?_, ?_, ?_⟩ (sameCatalog_announce _ _)
  · exact ⟨hrecords.rules.settings, hrecords.rules.reader, hrecords.rules.patches⟩
  · exact hrecords.entries.trans hentries
  · exact hrecords.nextKey
  · intro x
    change (freed.unlinked c c.uniqueId).keysById.get? x = _
    rw [hrecords.keysById, hkeysById x]
  · intro u
    have hheir : ((freed.unlinked c c.uniqueId).unnamed key c).heir c.id u =
        (s.dropped key c).heir c.id u := heir_congr hrecords.entries hrecords.keysById c.id u
    rw [hheir]
    change (freed.unlinked c c.uniqueId).keyByUniqueId.get? u = _
    rw [hsame.keyByUniqueId, ← hfreed, get?_unindex]
    by_cases hu : u = c.uniqueId <;> simp [hu, dropped]

/-- The same where the record is changed in place before it goes. -/
theorem removed_modify_removeKey {s : Store} {key : Nat} {f : Record → Record} {c : Component}
    (hc : (s.modify key f).find? key = some c) (hkey : ∀ r, (f r).key = r.key) :
    Removed key c s ((s.modify key f).removeKey key) := by
  have h := removed_removeKey hc
  have hothers : (s.modify key f).entries.filter (·.1 ≠ key) = s.entries.filter (·.1 ≠ key) := by
    unfold entries modify
    generalize s.records = rs
    induction rs with
    | nil => rfl
    | cons r rs ih =>
      by_cases hr : r.key = key
      · simpa [hr, hkey] using ih
      · simpa [hr] using ih
  exact {
    rules := ⟨h.rules.settings, h.rules.reader, h.rules.patches⟩
    entries := h.entries.trans hothers
    nextKey := h.nextKey
    keysById := h.keysById
    keyByUniqueId := h.keyByUniqueId }

end SoftwareCatalog.Store
