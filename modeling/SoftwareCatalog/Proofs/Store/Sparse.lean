import SoftwareCatalog.Proofs.Store.Attachment
import SoftwareCatalog.Proofs.Store.Operation

namespace SoftwareCatalog

namespace Record

/-- The record with its tokens only if its key says so. -/
def sparse (keep : Nat → Bool) (r : Record) : Record :=
  { r with tokens := r.tokens.filter fun _ => keep r.key }

variable {keep : Nat → Bool}

theorem sparse_attach (addon : String) (r : Record) :
    (r.attach addon).sparse keep = (r.sparse keep).attach addon := by
  unfold attach sparse replace
  split <;> rfl

theorem sparse_detach (addon : String) (r : Record) :
    (r.detach addon).sparse keep = (r.sparse keep).detach addon := by
  unfold detach sparse replace
  split <;> rfl

theorem sparse_detachAll (r : Record) : r.detachAll.sparse keep = (r.sparse keep).detachAll := by
  unfold detachAll sparse replace
  split <;> rfl

end Record

namespace Store

/-- The catalog with the tokens of some records only. -/
def sparse (keep : Nat → Bool) (s : Store) : Store :=
  { s with records := s.records.map (Record.sparse keep) }

/-- Whatever comes in keeps its tokens. -/
def Keeps (s : Store) (keep : Nat → Bool) : Prop := ∀ key, s.nextKey ≤ key → keep key = true

variable {keep : Nat → Bool} {s t : Store} {key : Nat} {c : Component}

theorem Keeps.course {adds : List Addition} (h : s.Keeps keep) (k : Course s adds t) :
    t.Keeps keep :=
  fun key hkey => h key (Nat.le_trans k.nextKey_le hkey)

theorem components_sparse (s : Store) : (s.sparse keep).components = s.components := by
  unfold components sparse
  rw [List.map_map]
  rfl

theorem find?_sparse (s : Store) (key : Nat) : (s.sparse keep).find? key = s.find? key := by
  unfold find? sparse
  rw [List.find?_map, Option.map_map]
  rfl

theorem keysOf_sparse (s : Store) : (s.sparse keep).keysOf = s.keysOf := rfl

theorem keysWhere_sparse (s : Store) (p : Component → Bool) :
    (s.sparse keep).keysWhere p = s.keysWhere p := by
  unfold keysWhere sparse
  rw [List.filter_map, List.map_map]
  rfl

/-- A change of records that does not look at tokens. -/
theorem sparse_mapRecords (s : Store) {g : Record → Record}
    (hg : ∀ r : Record, (g r).sparse keep = g (r.sparse keep)) :
    sparse keep { s with records := s.records.map g } =
      { (s.sparse keep) with records := (s.sparse keep).records.map g } := by
  unfold sparse
  simp only [List.map_map]
  congr 1
  apply List.map_congr_left
  intro r _
  exact hg r

theorem sparse_modify (s : Store) (key : Nat) {f : Record → Record}
    (hf : ∀ r : Record, (f r).sparse keep = f (r.sparse keep)) :
    (s.modify key f).sparse keep = (s.sparse keep).modify key f := by
  apply sparse_mapRecords
  intro r
  have hkey : (r.sparse keep).key = r.key := rfl
  rw [hkey]
  split
  · exact hf r
  · rfl

theorem sparse_link (s : Store) (c : Component) :
    (s.link c).sparse keep = (s.sparse keep).link c := by
  apply sparse_mapRecords
  intro r
  have hsame : (r.sparse keep).key = r.key ∧ (r.sparse keep).component = r.component := ⟨rfl, rfl⟩
  rw [hsame.1, hsame.2]
  split
  · exact r.sparse_attach c.uniqueId
  · rfl

theorem sparse_unlink (s : Store) (ids : List String) (addon : String) :
    (s.unlink ids addon).sparse keep = (s.sparse keep).unlink ids addon := by
  apply sparse_mapRecords
  intro r
  have hkey : (r.sparse keep).key = r.key := rfl
  rw [hkey]
  split
  · exact r.sparse_detach addon
  · rfl

theorem heir_sparse (s : Store) (id : Option String) (u : String) :
    (s.sparse keep).heir id u = s.heir id u := by
  unfold heir
  simp only [find?_sparse, keysOf_sparse]

theorem sparse_reindex (s : Store) (id : Option String) (u : String) :
    (s.reindex id u).sparse keep = (s.sparse keep).reindex id u := by
  have heir : ((id.toList.flatMap (s.sparse keep).keysOf).find? fun k =>
      ((s.sparse keep).find? k).any (·.uniqueId == u)) =
      (id.toList.flatMap s.keysOf).find? fun k => (s.find? k).any (·.uniqueId == u) :=
    s.heir_sparse id u
  unfold reindex
  rw [heir]
  split <;> rfl

theorem sparse_unindex (s : Store) (key : Nat) (id : Option String) (u : String) :
    (s.unindex key id u).sparse keep = (s.sparse keep).unindex key id u := by
  have hindex : (s.sparse keep).keyByUniqueId = s.keyByUniqueId := rfl
  unfold unindex
  rw [hindex]
  split
  · exact sparse_reindex _ id u
  · rfl

theorem sparse_placed (h : s.Keeps keep) (c : Component) :
    (s.placed c).sparse keep = (s.sparse keep).placed c := by
  have hkept : (Record.ofComponent s.nextKey c).sparse keep = .ofComponent s.nextKey c := by
    have hnew : keep s.nextKey = true := h s.nextKey (Nat.le_refl _)
    cases htokens : c.tokens <;> simp [Record.sparse, Record.ofComponent, htokens, hnew]
  unfold placed sparse
  simp only [List.map_append, List.map_cons, List.map_nil, hkept]

theorem sparse_dropped (s : Store) (key : Nat) (c : Component) :
    (s.dropped key c).sparse keep = (s.sparse keep).dropped key c := by
  unfold dropped sparse
  simp only [List.filter_map]
  rfl

theorem sparse_linked (s : Store) (c : Component) :
    (s.linked c).sparse keep = (s.sparse keep).linked c := by
  unfold linked
  split
  · exact s.sparse_link c
  · rfl

theorem sparse_unlinked (s : Store) (c : Component) (u : String) :
    (s.unlinked c u).sparse keep = (s.sparse keep).unlinked c u := by
  unfold unlinked
  split
  · exact s.sparse_unlink _ u
  · rfl

theorem sparse_renamed (s : Store) (key : Nat) (c : Component) (previous : String) :
    (s.renamed key c previous).sparse keep = (s.sparse keep).renamed key c previous := by
  unfold renamed
  split
  · exact s.sparse_unindex key c.id previous
  · rfl

theorem sparse_index (s : Store) (key : Nat) (c : Component) :
    (s.index key c).sparse keep = (s.sparse keep).index key c := rfl

theorem sparse_unnamed (s : Store) (key : Nat) (c : Component) :
    (s.unnamed key c).sparse keep = (s.sparse keep).unnamed key c := rfl

theorem sparse_announce (s : Store) (e : ChangeEvent) :
    (s.announce e).sparse keep = (s.sparse keep).announce e := rfl

theorem sparse_insert (h : s.Keeps keep) (c : Component) :
    (s.insert c).sparse keep = (s.sparse keep).insert c := by
  have hkey : (s.sparse keep).nextKey = s.nextKey := rfl
  rw [insert_eq, insert_eq, sparse_announce, sparse_linked, sparse_index, sparse_placed h, hkey]

theorem sparse_refresh (s : Store) (key : Nat) (previous : String) :
    (s.refresh key previous).sparse keep = (s.sparse keep).refresh key previous := by
  have hfind : (s.sparse keep).find? key = s.find? key := s.find?_sparse key
  cases hc : s.find? key with
  | none => rw [refresh_of_none hc, refresh_of_none (hfind.trans hc)]
  | some c =>
    rw [refresh_eq hc, refresh_eq (hfind.trans hc), sparse_announce, sparse_index,
      sparse_renamed, sparse_linked, sparse_unlinked]

theorem sparse_update (s : Store) (key : Nat) (f : Component → Component) :
    (s.update key f).sparse keep = (s.sparse keep).update key f := by
  have hfind : (s.sparse keep).find? key = s.find? key := s.find?_sparse key
  cases hc : s.find? key with
  | none => rw [update_of_none hc, update_of_none (hfind.trans hc)]
  | some c =>
    have hreplace (r : Record) : (r.replace (f c)).sparse keep = (r.sparse keep).replace (f c) := rfl
    rw [update_eq hc, update_eq (hfind.trans hc), sparse_refresh,
      sparse_modify s key hreplace]

theorem sparse_removeKey (s : Store) (key : Nat) :
    (s.removeKey key).sparse keep = (s.sparse keep).removeKey key := by
  have hfind : (s.sparse keep).find? key = s.find? key := s.find?_sparse key
  cases hc : s.find? key with
  | none => rw [removeKey_of_none hc, removeKey_of_none (hfind.trans hc)]
  | some c =>
    rw [removeKey_eq hc, removeKey_eq (hfind.trans hc), sparse_announce, sparse_unnamed,
      sparse_unlinked, sparse_unindex, sparse_dropped]

theorem sparse_attachAddons (s : Store) :
    (s.sparse keep).attachAddons = (s.attachAddons.1, s.attachAddons.2.sparse keep) := by
  have hlinks : (s.sparse keep).links = s.links := by
    unfold links
    simp only [components_sparse, find?_sparse, keysOf_sparse]
  have hbare : sparse keep { s with records := s.records.map Record.detachAll } =
      { (s.sparse keep) with records := (s.sparse keep).records.map Record.detachAll } :=
    sparse_mapRecords s Record.sparse_detachAll
  have hfold (ls : List (Nat × String)) (t : Store) :
      (ls.foldl (fun t l => t.modify l.1 (Record.attach l.2)) t).sparse keep =
        ls.foldl (fun t l => t.modify l.1 (Record.attach l.2)) (t.sparse keep) := by
    induction ls generalizing t with
    | nil => rfl
    | cons l ls ih =>
      rw [List.foldl_cons, List.foldl_cons, ih, sparse_modify _ _ (Record.sparse_attach l.2)]
  have hattach (s : Store) : s.attachAddons = (s.links.length,
      s.links.foldl (fun t l => t.modify l.1 (Record.attach l.2))
        { s with records := s.records.map Record.detachAll }) := rfl
  rw [hattach, hattach, hlinks, hfold, hbare]

theorem sparse_addPatch (s : Store) (id : String) (patch : Component) :
    (s.addPatch id patch).sparse keep = (s.sparse keep).addPatch id patch := by
  have hfold (keys : List Nat) (t : Store) :
      (keys.foldl (fun s k => s.update k fun c => c.subsume (patchFlags patch) patch)
        t).sparse keep =
      keys.foldl (fun s k => s.update k fun c => c.subsume (patchFlags patch) patch)
        (t.sparse keep) := by
    induction keys generalizing t with
    | nil => rfl
    | cons k keys ih => rw [List.foldl_cons, List.foldl_cons, ih, sparse_update]
  unfold addPatch
  simp only [keysOf_sparse, find?_sparse, ← hfold]
  rfl

theorem existing?_sparse (s : Store) (c : Component) :
    (s.sparse keep).existing? c = s.existing? c := by
  unfold existing? firstWithId
  simp only [keysOf_sparse, find?_sparse]
  rfl

theorem sparse_modify_replace (s : Store) (key : Nat) (c : Component) :
    (s.modify key fun r => r.replace c).sparse keep = (s.sparse keep).modify key fun r => r.replace c :=
  s.sparse_modify key fun _ => rfl

theorem sparse_addRecord (h : s.Keeps keep) (c : Component) :
    (s.addRecord c).sparse keep = (s.sparse keep).addRecord c := by
  unfold addRecord
  rw [existing?_sparse]
  split
  · exact sparse_insert h c
  · rename_i key _
    rw [find?_sparse]
    split
    · exact sparse_insert h c
    · rename_i old _
      have hsettings : (s.sparse keep).settings = s.settings := rfl
      simp only [hsettings]
      split
      · exact s.sparse_update key _
      · rw [sparse_insert, sparse_removeKey, sparse_modify_replace]
        -- the keys that are to come are the same when a record is gone
        have hremoved (s : Store) : (s.removeKey key).nextKey = s.nextKey :=
          (edits_removeKey s key).nextKey
        intro later hlater
        rw [hremoved] at hlater
        exact h later hlater

theorem sparse_add (h : s.Keeps keep) (c : Component) :
    (s.add c).sparse keep = (s.sparse keep).add c := by
  have hpatches : (s.sparse keep).patches = s.patches := rfl
  have hpool : (s.sparse keep).pool = s.pool := rfl
  unfold add
  rw [hpool]
  generalize s.pool.internAll c.pooledTexts = pool
  split
  · rfl
  · simp only [hpatches]
    split
    · exact sparse_addPatch _ _ c
    · have hpooled : ({ s with pool } : Store).Keeps keep := h
      exact sparse_addRecord hpooled _

theorem sparse_adds (h : s.Keeps keep) (cs : List Component) :
    (cs.foldl add s).sparse keep = cs.foldl add (s.sparse keep) := by
  induction cs generalizing s with
  | nil => rfl
  | cons c cs ih =>
    have hnext : (s.add c).Keeps keep := h.course (.add .refl c)
    rw [List.foldl_cons, List.foldl_cons, ih hnext, sparse_add h]

theorem batch_sparse {α : Type} {f : Store → α × Store}
    (h : f (s.inhibit.2.sparse keep) = ((f s.inhibit.2).1, (f s.inhibit.2).2.sparse keep)) :
    (s.sparse keep).batch f = ((s.batch f).1, (s.batch f).2.sparse keep) := by
  have hinhibit : (s.sparse keep).inhibit = (s.inhibit.1, s.inhibit.2.sparse keep) := rfl
  unfold batch
  simp only [hinhibit, h]
  rfl

theorem foldl_sparse {α β : Type} {f : β × Store → α → β × Store}
    (h : ∀ b (s : Store) a, f (b, (s.sparse keep)) a = ((f (b, s) a).1, (f (b, s) a).2.sparse keep))
    (as : List α) (b : β) (s : Store) :
    as.foldl f (b, (s.sparse keep)) = ((as.foldl f (b, s)).1, (as.foldl f (b, s)).2.sparse keep) := by
  induction as generalizing b s with
  | nil => rfl
  | cons a as ih => rw [List.foldl_cons, List.foldl_cons, h, ih]

theorem addMany_sparse (h : s.Keeps keep) (cs : List Component) :
    (s.sparse keep).addMany cs = (s.addMany cs).sparse keep := by
  have hinhibited : s.inhibit.2.Keeps keep := h
  unfold addMany
  rw [batch_sparse]
  rw [sparse_adds hinhibited]

theorem purgePool_sparse (s : Store) :
    (s.sparse keep).purgePool = (s.purgePool.1, s.purgePool.2.sparse keep) := by
  have hheld : (s.sparse keep).heldTexts = s.heldTexts := by
    unfold heldTexts
    rw [components_sparse]
    rfl
  unfold purgePool
  rw [hheld]
  rfl

theorem settle_sparse (s : Store) : (s.sparse keep).settle = s.settle.sparse keep := by
  have hnotifier : (s.sparse keep).notifier = s.notifier := rfl
  unfold settle
  rw [hnotifier, purgePool_sparse]
  split <;> rfl

theorem removeKeys_sparse (s : Store) (keys : List Nat) :
    (s.sparse keep).removeKeys keys = ((s.removeKeys keys).1, (s.removeKeys keys).2.sparse keep) := by
  have heach (s : Store) : (s.sparse keep).removeEach keys =
      ((s.removeEach keys).1, (s.removeEach keys).2.sparse keep) := by
    apply foldl_sparse
    intro n t key
    rw [find?_sparse, sparse_removeKey]
  have hbatch := batch_sparse (f := fun s => s.removeEach keys) (heach s.inhibit.2)
  unfold removeKeys
  simp only [hbatch, settle_sparse]

theorem remove_sparse (s : Store) (c : Component) :
    (s.sparse keep).remove c = ((s.remove c).1, (s.remove c).2.sparse keep) := by
  have hkey : (s.sparse keep).keyOf? c = s.keyOf? c := by
    unfold keyOf?
    simp only [keysOf_sparse, find?_sparse]
    rfl
  unfold remove
  rw [hkey]
  split
  · rfl
  · rw [find?_sparse, sparse_removeKey]

theorem removeByUniqueId_sparse (s : Store) (uniqueId : String) :
    (s.sparse keep).removeByUniqueId uniqueId =
      ((s.removeByUniqueId uniqueId).1, (s.removeByUniqueId uniqueId).2.sparse keep) := by
  have hindex : (s.sparse keep).keyByUniqueId = s.keyByUniqueId := rfl
  unfold removeByUniqueId
  simp only [hindex, keysWhere_sparse, removeKeys_sparse]

theorem removeByMetadata_sparse (s : Store) (key value : String) :
    (s.sparse keep).removeByMetadata key value =
      ((s.removeByMetadata key value).1, (s.removeByMetadata key value).2.sparse keep) := by
  unfold removeByMetadata
  rw [keysWhere_sparse, removeKeys_sparse]

theorem removeAll_sparse (s : Store) : (s.sparse keep).removeAll = s.removeAll.sparse keep := by
  have hkeys : (s.sparse keep).records.map Record.key = s.records.map Record.key := by
    unfold sparse
    rw [List.map_map]
    rfl
  unfold removeAll
  rw [← settle_sparse, hkeys, removeKeys_sparse]
  rfl

theorem stripKey_sparse (filename : String) (count : Nat) (s : Store) (key : Nat) :
    stripKey filename (count, (s.sparse keep)) key =
      ((stripKey filename (count, s) key).1, (stripKey filename (count, s) key).2.sparse keep) := by
  unfold stripKey
  simp only [find?_sparse]
  split
  · rfl
  · rename_i c _
    have hmodify : (s.modify key (Record.withoutFile filename)).sparse keep =
        (s.sparse keep).modify key (Record.withoutFile filename) := s.sparse_modify key fun _ => rfl
    split
    · rw [sparse_removeKey, hmodify]
    · rw [sparse_refresh, hmodify]

theorem removeBySourceFile_sparse (s : Store) (filename : String) :
    (s.sparse keep).removeBySourceFile filename =
      ((s.removeBySourceFile filename).1, (s.removeBySourceFile filename).2.sparse keep) := by
  unfold removeBySourceFile
  simp only
  rw [batch_sparse, settle_sparse]
  simp only [keysWhere_sparse, foldl_sparse (stripKey_sparse filename)]
  rfl

theorem ingest_sparse (h : s.Keeps keep) (bytes : ByteArray) (source : SourceInfo) :
    (s.sparse keep).ingest bytes source =
      ((s.ingest bytes source).1, (s.ingest bytes source).2.sparse keep) := by
  have hreader : (s.sparse keep).reader = s.reader := rfl
  have hsettings : (s.sparse keep).settings = s.settings := rfl
  unfold ingest
  simp only [hreader, hsettings, addMany_sparse h]
  split <;> rfl

theorem loadSource_sparse (h : s.Keeps keep) (bytes : ByteArray) (name : String) (w : Watch) :
    (s.sparse keep).loadSource bytes name w =
      ((s.loadSource bytes name w).1, (s.loadSource bytes name w).2.sparse keep) := by
  unfold loadSource
  simp only [ingest_sparse h]

theorem completed_sparse (r : Outcome × Store) :
    completed (r.1, r.2.sparse keep) = ((completed r).1, (completed r).2.sparse keep) := by
  unfold completed
  simp only [sparse_attachAddons]
  split <;> rfl

theorem loadBytes_sparse (h : s.Keeps keep) (bytes : ByteArray) (name : String) (w : Watch) :
    (s.sparse keep).loadBytes bytes name w =
      ((s.loadBytes bytes name w).1, (s.loadBytes bytes name w).2.sparse keep) := by
  unfold loadBytes
  have hinhibited : s.inhibit.2.Keeps keep := h
  rw [batch_sparse]
  rw [loadSource_sparse hinhibited, completed_sparse]

theorem loadWatched_sparse (h : s.Keeps keep) (files : FileTree) (w : Watch) (path : String) :
    (s.sparse keep).loadWatched files w path =
      ((s.loadWatched files w path).1, (s.loadWatched files w path).2.sparse keep) := by
  have hfile : (s.sparse keep).loadFile files w path =
      ((s.loadFile files w path).1, (s.loadFile files w path).2.sparse keep) := by
    have hsettings : (s.sparse keep).settings = s.settings := rfl
    unfold loadFile
    split
    · rfl
    · simp only [loadSource_sparse h, hsettings]
      split <;> rfl
  unfold loadWatched
  rw [hfile]
  generalize s.loadFile files w path = r
  obtain ⟨outcome, t⟩ := r
  cases outcome <;> rfl

theorem loadEach_sparse (h : s.Keeps keep) (files : FileTree) (w : Watch) (cancel : Cancellation)
    (done : Nat) (paths : List String) :
    loadEach files w cancel done (s.sparse keep) paths =
      ((loadEach files w cancel done s paths).1,
        (loadEach files w cancel done s paths).2.sparse keep) := by
  induction paths generalizing s done with
  | nil => rfl
  | cons path paths ih =>
    have hnext := h.course (s.course_loadWatched files w path)
    unfold loadEach
    rw [loadWatched_sparse h]
    generalize s.loadWatched files w path = r at hnext
    obtain ⟨outcome, t⟩ := r
    split
    · rfl
    · cases outcome with
      | error e => rfl
      | ok n => simp only [ih hnext]

theorem loadDirectory_sparse (h : s.Keeps keep) (files : FileTree) (w : Watch)
    (cancel : Cancellation) (dir : String) : (s.sparse keep).loadDirectory files w cancel dir =
      ((s.loadDirectory files w cancel dir).1,
        (s.loadDirectory files w cancel dir).2.sparse keep) := by
  have hwatched : (s.watch dir w).Keeps keep := h
  exact loadEach_sparse hwatched files w cancel 0 (sourcesIn files dir)

theorem loadPath_sparse (h : s.Keeps keep) (files : FileTree) (w : Watch) (cancel : Cancellation)
    (path : String) : (s.sparse keep).loadPath files w cancel path =
      ((s.loadPath files w cancel path).1, (s.loadPath files w cancel path).2.sparse keep) := by
  unfold loadPath
  split
  · rfl
  · have hinhibited : s.inhibit.2.Keeps keep := h
    rw [batch_sparse]
    split
    · rw [loadDirectory_sparse hinhibited, completed_sparse]
    · rw [loadWatched_sparse hinhibited, completed_sparse]

theorem loadAll_sparse (h : s.Keeps keep) (files : FileTree) (w : Watch) (cancelled : Bool)
    (dirs : List String) : loadAll files w cancelled (s.sparse keep) dirs =
      ((loadAll files w cancelled s dirs).1, (loadAll files w cancelled s dirs).2.sparse keep) := by
  induction dirs generalizing s with
  | nil => rfl
  | cons dir dirs ih =>
    have hnext := h.course (s.course_loadPath files w (fun _ => cancelled) dir)
    unfold loadAll
    rw [loadPath_sparse h]
    generalize s.loadPath files w (fun _ => cancelled) dir = r at hnext
    obtain ⟨outcome, t⟩ := r
    cases outcome with
    | error e => rfl
    | ok n => simp only [ih hnext]

theorem loadUserLocations_sparse (h : s.Keeps keep) (files : FileTree) (cancelled : Bool)
    (dataHome home : Option String) :
    (s.sparse keep).loadUserLocations files cancelled dataHome home =
      ((s.loadUserLocations files cancelled dataHome home).1,
        (s.loadUserLocations files cancelled dataHome home).2.sparse keep) :=
  batch_sparse (loadAll_sparse (s := s.inhibit.2) h files _ cancelled _)

theorem dropPath_sparse (s : Store) (path : String) :
    (s.sparse keep).dropPath path = ((s.dropPath path).1, (s.dropPath path).2.sparse keep) := by
  have hwatches : (s.sparse keep).watches = s.watches := rfl
  unfold dropPath
  simp only [hwatches]
  rw [foldl_sparse]
  · rfl
  · intro n t nested
    simp only [removeBySourceFile_sparse]
    rfl

theorem reload_sparse (h : s.Keeps keep) (files : FileTree) (w : Watch) (path : String) :
    (s.sparse keep).reload files w path =
      (s.reload files w path).map fun r => (r.1, r.2.sparse keep) := by
  unfold reload
  rw [loadDirectory_sparse h, loadWatched_sparse h]
  split
  · rfl
  · split <;> rfl

theorem onFileChange_sparse (h : s.Keeps keep) (files : FileTree) (change : FileChange)
    (path : String) : (s.sparse keep).onFileChange files change path =
      ((s.onFileChange files change path).1, (s.onFileChange files change path).2.sparse keep) := by
  have hwatches : (s.sparse keep).watches = s.watches := rfl
  have hinhibit : (s.sparse keep).inhibit = (s.inhibit.1, s.inhibit.2.sparse keep) := rfl
  unfold onFileChange
  rw [hwatches]
  split
  · rfl
  · rename_i w _
    have htaken : Moves (fun _ => False) s (s.inhibit.2.removeBySourceFile path).2 :=
      s.moves_inhibit.trans (moves_removeBySourceFile _ path)
    have hstripped := h.course htaken.course
    simp only [hinhibit, removeBySourceFile_sparse, dropPath_sparse, reload_sparse hstripped]
    generalize s.inhibit.2.removeBySourceFile path = r
    by_cases hremoved : change = .removed
    · simp only [hremoved, if_true, sparse_attachAddons, ← settle_sparse]
      rfl
    · simp only [hremoved, if_false]
      cases r.2.reload files w path with
      | none => rfl
      | some q =>
        obtain ⟨outcome, t⟩ := q
        cases outcome with
        | error e => rfl
        | ok n =>
          simp only [Option.map_some, sparse_attachAddons, ← settle_sparse]
          rfl

theorem byMetadata_sparse (s : Store) (key value : String) :
    (s.sparse keep).byMetadata key value =
      ((s.byMetadata key value).1, (s.byMetadata key value).2.sparse keep) := by
  have hindices : (s.sparse keep).keysByMetadata = s.keysByMetadata := rfl
  have hresolve (keys : List Nat) : (s.sparse keep).resolve keys = s.resolve keys := by
    unfold resolve
    rw [funext s.find?_sparse]
  have hbuckets : (s.sparse keep).metadataBuckets key = s.metadataBuckets key := by
    unfold metadataBuckets sparse
    rw [List.foldl_map]
    rfl
  unfold byMetadata
  simp only [hindices, hbuckets, hresolve]
  split <;> rfl

/-- The keys in `keep`, but for those of records without tokens. -/
def narrowed (s : Store) (keep : Nat → Bool) (key : Nat) : Bool :=
  keep key && !s.records.any fun r => r.key == key && r.tokens.isNone

theorem Keyed.narrowed_key (hs : s.Keyed) {r : Record} (hr : r ∈ s.records) :
    s.narrowed keep r.key = (keep r.key && r.tokens.isSome) := by
  have hany : (s.records.any fun q => q.key == r.key && q.tokens.isNone) = r.tokens.isNone := by
    rw [Bool.eq_iff_iff, List.any_eq_true]
    constructor
    · rintro ⟨q, hq, hboth⟩
      rw [Bool.and_eq_true, beq_iff_eq] at hboth
      obtain rfl := List.inj_on_of_nodup_map hs.nodup_keys hq hr hboth.1
      exact hboth.2
    · exact fun hnone => ⟨r, hr, by simp [hnone]⟩
  unfold narrowed
  rw [hany, Option.not_isNone]

/-- To build tokens and then to drop those that were not there is to do nothing. -/
theorem Keyed.sparse_buildTokens (hs : s.Keyed) :
    s.buildTokens.sparse (s.narrowed keep) = s.sparse keep := by
  unfold buildTokens sparse
  rw [List.map_map]
  congr 1
  apply List.map_congr_left
  intro r hr
  have hkept : s.narrowed keep r.key = (keep r.key && r.tokens.isSome) := hs.narrowed_key hr
  cases htokens : r.tokens with
  | none => simp [Record.sparse, hkept, htokens]
  | some tokens => simp [Record.sparse, tokensOf, hkept, htokens]

theorem Keeps.narrowed (h : s.Keeps keep) (hs : s.Keyed) : s.Keeps (s.narrowed keep) := by
  intro key hkey
  have hnone : (s.records.any fun r => r.key == key && r.tokens.isNone) = false := by
    rw [List.any_eq_false]
    intro r hr hboth
    rw [Bool.and_eq_true, beq_iff_eq] at hboth
    have hbelow := hs.fresh (r.key, r.component.bare) (List.mem_map_of_mem hr)
    exact absurd hbelow (Nat.not_lt.2 (hboth.1 ▸ hkey))
  unfold Store.narrowed
  rw [h key hkey, hnone]
  rfl

/-- Whether all that an operation may do is to build tokens. -/
def Operation.searches : Operation → Bool
  | .search _ | .buildTokens => true
  | _ => false

theorem apply_of_searches (s : Store) {op : Operation} (h : op.searches = true) :
    s.apply op = s ∨ s.apply op = s.buildTokens := by
  cases op with
  | search query =>
    change (s.search query).2 = s ∨ (s.search query).2 = s.buildTokens
    unfold search
    split
    · exact .inl rfl
    · exact .inr rfl
  | buildTokens => exact .inr rfl
  | _ => cases h

/-- No other operation looks at tokens. -/
theorem apply_sparse (h : s.Keeps keep) {op : Operation} (hop : op.searches = false) :
    (s.sparse keep).apply op = (s.apply op).sparse keep := by
  cases op with
  | add c => exact (sparse_add h c).symm
  | addMany cs => exact addMany_sparse h cs
  | loadBytes bytes name w => exact congrArg Prod.snd (loadBytes_sparse h bytes name w)
  | loadPath files w cancel path =>
    exact congrArg Prod.snd (loadPath_sparse h files w cancel path)
  | loadUserLocations files cancelled dataHome home =>
    exact congrArg Prod.snd (loadUserLocations_sparse h files cancelled dataHome home)
  | fileChange files change path =>
    exact congrArg Prod.snd (onFileChange_sparse h files change path)
  | remove c => exact congrArg Prod.snd (s.remove_sparse c)
  | removeById id => exact congrArg Prod.snd (s.removeKeys_sparse (s.keysOf id))
  | removeByUniqueId uniqueId => exact congrArg Prod.snd (s.removeByUniqueId_sparse uniqueId)
  | removeByMetadata key value => exact congrArg Prod.snd (s.removeByMetadata_sparse key value)
  | removeBySourceFile filename =>
    exact congrArg Prod.snd (s.removeBySourceFile_sparse filename)
  | removeAll => exact s.removeAll_sparse
  | attachAddons => exact congrArg Prod.snd s.sparse_attachAddons
  | inhibit => rfl
  | release guard => rfl
  | purgePool => exact congrArg Prod.snd s.purgePool_sparse
  | queryMetadata key value => exact congrArg Prod.snd (s.byMetadata_sparse key value)
  | withStemmer stem => rfl
  | search query => cases hop
  | buildTokens => cases hop

theorem Keeps.apply (h : s.Keeps keep) (op : Operation) : (s.apply op).Keeps keep := by
  by_cases hop : ∃ stem, op = .withStemmer stem
  · obtain ⟨stem, rfl⟩ := hop
    exact h
  · push Not at hop
    exact h.course (s.course_apply hop)

/-- Without the searches of it, a run leads to the same catalog with fewer tokens. -/
theorem exists_sparse_run (h : s.Keeps keep) {ops : List Operation}
    (hkeyed : ∀ done later, ops = done ++ later → (s.run done).Keyed) :
    ∃ kept, (s.sparse keep).run (ops.filter (!·.searches)) = (s.run ops).sparse kept := by
  induction ops generalizing s keep with
  | nil => exact ⟨keep, rfl⟩
  | cons op ops ih =>
    have hs : s.Keyed := hkeyed [] (op :: ops) rfl
    have hrest : ∀ done later, ops = done ++ later → ((s.apply op).run done).Keyed := by
      intro done later hsplit
      exact hkeyed (op :: done) later (by rw [hsplit, List.cons_append])
    cases hop : op.searches with
    | true =>
      rw [List.filter_cons_of_neg (by simp [hop])]
      rcases s.apply_of_searches hop with hsame | hbuilt
      · rw [hsame] at hrest
        obtain ⟨kept, hrun⟩ := ih h hrest
        exact ⟨kept, hrun.trans (congrArg (fun t => (t.run ops).sparse kept) hsame.symm)⟩
      · rw [hbuilt] at hrest
        have hkeeps : s.buildTokens.Keeps (s.narrowed keep) := h.narrowed hs
        obtain ⟨kept, hrun⟩ := ih hkeeps hrest
        rw [hs.sparse_buildTokens] at hrun
        exact ⟨kept, hrun.trans (congrArg (fun t => (t.run ops).sparse kept) hbuilt.symm)⟩
    | false =>
      obtain ⟨kept, hrun⟩ := ih (h.apply op) hrest
      rw [← apply_sparse h hop] at hrun
      rw [List.filter_cons_of_pos (by simp [hop])]
      exact ⟨kept, hrun⟩

end Store

end SoftwareCatalog
