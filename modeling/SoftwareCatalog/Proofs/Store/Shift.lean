import SoftwareCatalog.Proofs.Store.Attachment
import SoftwareCatalog.Proofs.Store.Patching
import SoftwareCatalog.Proofs.Store.Repetition
import SoftwareCatalog.Proofs.Store.SourceCalls

namespace SoftwareCatalog

namespace Store

variable {m n : Nat} {s t u s' t' : Store} {key : Nat} {c d : Component}

/-- An entry under a key that is higher by `n`. -/
def lift (n : Nat) (e : Nat × Component) : Nat × Component := (e.1 + n, e.2)

/-- Two catalogs with the same components and patches in the same order, where all keys of the
second one are higher by `n`. -/
structure Shifted (n : Nat) (s t : Store) : Prop where
  settings : t.settings = s.settings
  reader : t.reader = s.reader
  entries : t.entries = s.entries.map (lift n)
  nextKey : t.nextKey = s.nextKey + n
  patches : ∀ id, t.patchesFor id = s.patchesFor id

theorem SameCatalog.shifted (h : SameCatalog s t) : Shifted 0 s t where
  settings := h.settings
  reader := h.reader
  entries := by
    have hid : lift 0 = id := rfl
    rw [hid, List.map_id, h.entries]
  nextKey := h.nextKey
  patches := h.patchesFor

theorem Shifted.congr (h : Shifted n s t) (hs : SameCatalog s s') (ht : SameCatalog t t') :
    Shifted n s' t' where
  settings := by rw [ht.settings, hs.settings, h.settings]
  reader := by rw [ht.reader, hs.reader, h.reader]
  entries := by rw [ht.entries, hs.entries, h.entries]
  nextKey := by rw [ht.nextKey, hs.nextKey, h.nextKey]
  patches id := by rw [ht.patchesFor, hs.patchesFor, h.patches]

theorem Shifted.trans (h : Shifted m s t) (k : Shifted n t u) :
    Shifted (m + n) s u where
  settings := k.settings.trans h.settings
  reader := k.reader.trans h.reader
  entries := by
    have hlift : lift n ∘ lift m = lift (m + n) :=
      funext fun e => congrArg (·, e.2) (Nat.add_assoc e.1 m n)
    rw [k.entries, h.entries, List.map_map, hlift]
  nextKey := by rw [k.nextKey, h.nextKey, Nat.add_assoc]
  patches id := (k.patches id).trans (h.patches id)

/-- Nothing is left of what a catalog had but its keys. -/
theorem shifted_of_empty (settings : Settings) (reader : Reader) (hsettings : s.settings = settings)
    (hreader : s.reader = reader) (hentries : s.entries = [])
    (hpatches : ∀ id, s.patchesFor id = []) : Shifted s.nextKey (new settings reader) s where
  settings := hsettings
  reader := hreader
  entries := hentries
  nextKey := (Nat.zero_add s.nextKey).symm
  patches := hpatches

theorem Shifted.find?_entries (h : Shifted n s t) (key : Nat) :
    (t.entries.find? (·.1 == key + n)).map (·.2) = (s.entries.find? (·.1 == key)).map (·.2) := by
  have hkey : (fun e : Nat × Component => e.1 == key + n) ∘ lift n = fun e => e.1 == key := by
    funext e
    simp [lift]
  rw [h.entries, List.find?_map, hkey, Option.map_map]
  rfl

theorem Shifted.any_find? (h : Shifted n s t) {p : Component → Bool} (hp : Unattached p)
    (key : Nat) : (t.find? (key + n)).any p = (s.find? key).any p := by
  rw [Store.any_find? hp, Store.any_find? hp, h.find?_entries]

theorem Shifted.find?_bare (h : Shifted n s t) (key : Nat) :
    (t.find? (key + n)).map Component.bare = (s.find? key).map Component.bare := by
  rw [Store.find?_bare, Store.find?_bare, h.find?_entries]

theorem Shifted.keysOf (h : Shifted n s t) (hs : s.WellIndexed) (ht : t.WellIndexed) (x : String) :
    t.keysOf x = (s.keysOf x).map (· + n) := by
  have hnamed : (fun e : Nat × Component => e.2.id == some x) ∘ lift n =
      fun e => e.2.id == some x := rfl
  rw [ht.keysOf_eq, hs.keysOf_eq, h.entries, keysNamed, List.filter_map, hnamed, List.map_map,
    keysNamed, List.map_map]
  rfl

theorem Shifted.find?_keysOf (h : Shifted n s t) (hs : s.WellIndexed) (ht : t.WellIndexed)
    {p : Component → Bool} (hp : Unattached p) (x : String) :
    ((t.keysOf x).find? fun k => (t.find? k).any p) =
      ((s.keysOf x).find? fun k => (s.find? k).any p).map (· + n) := by
  have hany : (fun k => (t.find? k).any p) ∘ (· + n) = fun k => (s.find? k).any p :=
    funext fun k => h.any_find? hp k
  rw [h.keysOf hs ht, List.find?_map, hany]

theorem Shifted.firstWithId (h : Shifted n s t) (hs : s.WellIndexed) (ht : t.WellIndexed)
    {alike : Component → Bool} (hp : Unattached alike) (x : String) :
    t.firstWithId x alike = (s.firstWithId x alike).map (· + n) := by
  unfold Store.firstWithId
  rw [h.settings]
  split
  · exact h.find?_keysOf hs ht hp x
  · rw [h.keysOf hs ht, List.head?_map]

theorem Shifted.existing? (h : Shifted n s t) (hs : s.WellIndexed) (ht : t.WellIndexed)
    (c : Component) : t.existing? c = (s.existing? c).map (· + n) := by
  have hsame : Unattached fun d => d.sameIdentity c := fun _ => rfl
  have hhosts : Unattached fun d => d.hosts c := fun _ => rfl
  unfold Store.existing?
  cases c.id with
  | none => rfl
  | some x =>
    rw [Option.bind_some, Option.bind_some, h.settings, h.firstWithId hs ht hsame,
      h.firstWithId hs ht hhosts, Option.map_or]
    split <;> rfl

theorem Shifted.targets (h : Shifted n s t) (hs : s.WellIndexed) (ht : t.WellIndexed) (x : String)
    (patch : Component) : t.targets x patch = (s.targets x patch).map (· + n) := by
  have hmatches : Unattached (patchMatches patch) := fun _ => rfl
  have hany : (fun k => (t.find? k).any (patchMatches patch)) ∘ (· + n) =
      fun k => (s.find? k).any (patchMatches patch) := funext fun k => h.any_find? hmatches k
  unfold Store.targets
  rw [h.keysOf hs ht, List.filter_map, hany]

theorem alter_lift (n key : Nat) (g : Component → Component) (e : Nat × Component) :
    alter (key + n) g (lift n e) = lift n (alter key g e) := by
  unfold alter lift
  by_cases hk : e.1 = key <;> simp [hk]

theorem Shifted.rules (h : Shifted n s t) (hs : SameRules s s') (ht : SameRules t t') :
    t'.settings = s'.settings ∧ t'.reader = s'.reader ∧
      ∀ id, t'.patchesFor id = s'.patchesFor id := by
  refine ⟨by rw [ht.settings, hs.settings, h.settings], by rw [ht.reader, hs.reader, h.reader], ?_⟩
  intro id
  have hpatches := h.patches id
  unfold patchesFor at hpatches ⊢
  rw [ht.patches, hs.patches, hpatches]

theorem Shifted.inserted (h : Shifted n s t) (hs : Inserted c s s') (ht : Inserted d t t')
    (hbare : d.bare = c.bare) : Shifted n s' t' := by
  obtain ⟨hsettings, hreader, hpatches⟩ := h.rules hs.rules ht.rules
  refine ⟨hsettings, hreader, ?_, ?_, hpatches⟩
  · rw [ht.entries, hs.entries, h.entries, List.map_append, h.nextKey, hbare]
    rfl
  · rw [ht.nextKey, hs.nextKey, h.nextKey]
    omega

theorem Shifted.altered (h : Shifted n s t) {g : Component → Component}
    (hs : Altered key g c s s') (ht : Altered (key + n) g d t t') : Shifted n s' t' := by
  obtain ⟨hsettings, hreader, hpatches⟩ := h.rules hs.rules ht.rules
  refine ⟨hsettings, hreader, ?_, ?_, hpatches⟩
  · rw [ht.entries, hs.entries, h.entries, List.map_map, List.map_map]
    exact List.map_congr_left fun e _ => alter_lift n key g e
  · rw [ht.nextKey, hs.nextKey, h.nextKey]

theorem Shifted.removed (h : Shifted n s t) (hs : Removed key c s s')
    (ht : Removed (key + n) d t t') : Shifted n s' t' := by
  obtain ⟨hsettings, hreader, hpatches⟩ := h.rules hs.rules ht.rules
  refine ⟨hsettings, hreader, ?_, ?_, hpatches⟩
  · have hkey : (fun e : Nat × Component => decide (e.1 ≠ key + n)) ∘ lift n =
        fun e => decide (e.1 ≠ key) := by
      funext e
      simp [lift]
    rw [ht.entries, hs.entries, h.entries, List.filter_map, hkey]
  · rw [ht.nextKey, hs.nextKey, h.nextKey]

/-- The record under a key and the one that corresponds to it. -/
theorem Shifted.found (h : Shifted n s t) (hc : s.find? key = some c) :
    ∃ d, t.find? (key + n) = some d ∧ d.bare = c.bare := by
  have hfound := h.find?_bare key
  rw [hc, Option.map_some] at hfound
  exact Option.map_eq_some_iff.1 hfound

theorem Shifted.missing (h : Shifted n s t) (hc : s.find? key = none) :
    t.find? (key + n) = none := by
  have hfound := h.find?_bare key
  rw [hc, Option.map_none] at hfound
  exact Option.map_eq_none_iff.1 hfound

theorem Shifted.update (h : Shifted n s t) {f g : Component → Component}
    (hfg : ∀ c d, s.find? key = some c → t.find? (key + n) = some d → d.bare = c.bare →
      (g d).bare = (f c).bare) : Shifted n (s.update key f) (t.update (key + n) g) := by
  cases hc : s.find? key with
  | none =>
    rw [update_of_none hc, update_of_none (h.missing hc)]
    exact h
  | some c =>
    obtain ⟨d, hd, hbare⟩ := h.found hc
    have hsame := hfg c d hc hd hbare
    have haltered := altered_update hd g
    rw [hsame] at haltered
    exact h.altered (altered_update hc f) haltered

theorem Shifted.addRecord (h : Shifted n s t) (hs : s.WellIndexed) (ht : t.WellIndexed)
    (c : Component) : Shifted n (s.addRecord c) (t.addRecord c) := by
  have hinsert : Shifted n (s.insert c) (t.insert c) :=
    h.inserted (inserted_insert s c) (inserted_insert t c) rfl
  unfold Store.addRecord
  rw [h.existing? hs ht]
  cases s.existing? c with
  | none => exact hinsert
  | some key =>
    rw [Option.map_some]
    simp only
    cases hold : s.find? key with
    | none =>
      rw [h.missing hold]
      exact hinsert
    | some old =>
      obtain ⟨d, hd, hbare⟩ := h.found hold
      obtain ⟨hsurvivor, hstored, hincoming⟩ :=
        reconcile_congr_bare s.settings.add.preferLocal hbare c
      rw [hd, h.settings]
      simp only [hsurvivor]
      split
      · apply h.update
        intro _ _ _ _ _
        exact hstored
      · have hs' : Removed key (reconcile s.settings.add.preferLocal old c).stored s _ :=
          removed_modify_removeKey (find?_replaced hold _) fun _ => rfl
        have ht' : Removed (key + n) (reconcile s.settings.add.preferLocal d c).stored t _ :=
          removed_modify_removeKey (find?_replaced hd _) fun _ => rfl
        have hgone := h.removed hs' ht'
        exact hgone.inserted (inserted_insert _ _) (inserted_insert _ _) (by rw [hincoming])

theorem Shifted.given (h : Shifted n s t) (patch : Component) (keys : List Nat) :
    Shifted n (s.given patch keys) (t.given patch (keys.map (· + n))) := by
  induction keys generalizing s t with
  | nil => exact h
  | cons key keys ih =>
    refine ih (h.update ?_)
    intro c d _ _ hbare
    have hattached := Component.eq_attach_of_bare hbare
    rw [hattached]
    rfl

theorem Shifted.add_patch (h : Shifted n s t) (hs : s.WellIndexed) (ht : t.WellIndexed) {x : String}
    (hid : c.id = some x) (hpatch : c.mergeKind.isPatch = true) :
    Shifted n (s.add c) (t.add c) := by
  obtain ⟨pool, patches, hs'⟩ := s.add_eq_given hid hpatch
  obtain ⟨pool', patches', ht'⟩ := t.add_eq_given hid hpatch
  have hpooled : Shifted n { s with pool } { t with pool := pool' } :=
    h.congr ⟨rfl, rfl, rfl, rfl, rfl, rfl, rfl, rfl⟩ ⟨rfl, rfl, rfl, rfl, rfl, rfl, rfl, rfl⟩
  have hgiven := hpooled.given c (s.targets x c)
  rw [← h.targets hs ht] at hgiven
  refine ⟨?_, ?_, ?_, ?_, ?_⟩
  · rw [hs', ht']
    exact hgiven.settings
  · rw [hs', ht']
    exact hgiven.reader
  · rw [hs', ht']
    exact hgiven.entries
  · rw [hs', ht']
    exact hgiven.nextKey
  · intro id
    rw [patchesFor_add, patchesFor_add, h.patches]

/-- Adding a component to both catalogs leaves them different in keys only. -/
theorem Shifted.add (h : Shifted n s t) (hs : s.WellIndexed) (ht : t.WellIndexed)
    (c : Component) : Shifted n (s.add c) (t.add c) := by
  cases hid : c.id with
  | none =>
    rw [add_of_no_id hid, add_of_no_id hid]
    exact h
  | some x =>
    cases hpatch : c.mergeKind.isPatch with
    | true => exact h.add_patch hs ht hid hpatch
    | false =>
      have hpooled : Shifted n (s.pooled c) (t.pooled c) :=
        h.congr (s.sameCatalog_internAll _) (t.sameCatalog_internAll _)
      have hpatched : t.patched x c = s.patched x c := by
        unfold patched
        rw [h.patches]
      have hadd (s : Store) : s.add c = (s.pooled c).addRecord (s.patched x c) := by
        unfold Store.add
        rw [hid]
        simp only [hpatch]
        rfl
      rw [hadd, hadd, hpatched]
      exact hpooled.addRecord (hs.same (s.sameCatalog_internAll _).sameIndices)
        (ht.same (t.sameCatalog_internAll _).sameIndices) _

/-- Two catalogs that differ in keys only, and lead to their records. -/
structure Alike (n : Nat) (s t : Store) : Prop where
  shifted : Shifted n s t
  left : s.WellIndexed
  right : t.WellIndexed

theorem Alike.refl (hs : s.WellIndexed) : Alike 0 s s := ⟨(SameCatalog.refl s).shifted, hs, hs⟩

theorem Alike.congr (h : Alike n s t) (hs : SameCatalog s s') (ht : SameCatalog t t') :
    Alike n s' t' :=
  ⟨h.shifted.congr hs ht, h.left.same hs.sameIndices, h.right.same ht.sameIndices⟩

theorem Alike.adds (h : Alike n s t) {cs : List Component} (hcs : ∀ c ∈ cs, c.Proper) :
    Alike n (cs.foldl Store.add s) (cs.foldl Store.add t) := by
  induction cs generalizing s t with
  | nil => exact h
  | cons c cs ih =>
    have hc := hcs c List.mem_cons_self
    have hnext : Alike n (s.add c) (t.add c) :=
      ⟨h.shifted.add h.left h.right c, h.left.step (.add hc), h.right.step (.add hc)⟩
    exact ih hnext fun d hd => hcs d (List.mem_cons_of_mem c hd)

theorem Alike.addMany (h : Alike n s t) {cs : List Component} (hcs : ∀ c ∈ cs, c.Proper) :
    Alike n (s.addMany cs) (t.addMany cs) := by
  have hadded := (h.congr s.sameCatalog_inhibit t.sameCatalog_inhibit).adds hcs
  exact hadded.congr (sameCatalog_release _ _) (sameCatalog_release _ _)

theorem Alike.admitted (h : Alike n s t) (cs : List Component) : t.admitted cs = s.admitted cs := by
  unfold Store.admitted
  rw [h.shifted.settings]

/-- Two runs with the same result, which leave catalogs that differ in keys only. -/
structure Agree {α : Type} (n : Nat) (r q : α × Store) : Prop where
  result : q.1 = r.1
  alike : Alike n r.2 q.2

theorem Alike.ingest (h : Alike n s t) (hr : s.reader.Proper) (bytes : ByteArray)
    (source : SourceInfo) : Agree n (s.ingest bytes source) (t.ingest bytes source) := by
  cases hread : s.reader bytes source with
  | error e =>
    have hread' : t.reader bytes source = .error e := by rw [h.shifted.reader, hread]
    rw [ingest_of_error hread, ingest_of_error hread']
    exact ⟨rfl, h⟩
  | ok cs =>
    have hread' : t.reader bytes source = .ok cs := by rw [h.shifted.reader, hread]
    rw [ingest_of_ok hread, ingest_of_ok hread', h.admitted]
    exact ⟨rfl, h.addMany (proper_admitted (hr bytes source cs hread))⟩

theorem Alike.loadFile (h : Alike n s t) (hr : s.reader.Proper) (files : FileTree) (w : Watch)
    (path : String) : Agree n (s.loadFile files w path) (t.loadFile files w path) := by
  unfold Store.loadFile
  cases files.read path with
  | error e => exact ⟨rfl, h⟩
  | ok bytes =>
    have hingest := h.ingest hr bytes { filename := some path, scope := w.scope, arch := w.arch }
    simp only [loadSource, h.shifted.settings, hingest.result]
    split <;> exact ⟨rfl, hingest.alike⟩

theorem Alike.loadWatched (h : Alike n s t) (hr : s.reader.Proper) (files : FileTree) (w : Watch)
    (path : String) : Agree n (s.loadWatched files w path) (t.loadWatched files w path) := by
  have hfile := h.loadFile hr files w path
  unfold Store.loadWatched
  generalize s.loadFile files w path = r at hfile ⊢
  generalize t.loadFile files w path = q at hfile ⊢
  obtain ⟨outcome, s'⟩ := r
  obtain ⟨outcome', t'⟩ := q
  obtain ⟨rfl, halike⟩ := hfile
  cases outcome' with
  | error e => exact ⟨rfl, halike⟩
  | ok count => exact ⟨rfl, halike.congr (sameCatalog_watch _ _ _) (sameCatalog_watch _ _ _)⟩

theorem Alike.loadEach (h : Alike n s t) (hr : s.reader.Proper) (files : FileTree) (w : Watch)
    (cancel : Cancellation) (done : Nat) (paths : List String) :
    Agree n (Store.loadEach files w cancel done s paths)
      (Store.loadEach files w cancel done t paths) := by
  induction paths generalizing s t done with
  | nil => exact ⟨rfl, h⟩
  | cons path paths ih =>
    have hfirst := h.loadWatched hr files w path
    have hreader : (s.loadWatched files w path).2.reader = s.reader :=
      (s.course_loadWatched files w path).setup.reader
    unfold Store.loadEach
    split
    · exact ⟨rfl, h⟩
    · generalize s.loadWatched files w path = r at hfirst hreader ⊢
      generalize t.loadWatched files w path = q at hfirst ⊢
      obtain ⟨outcome, s'⟩ := r
      obtain ⟨outcome', t'⟩ := q
      obtain ⟨rfl, halike⟩ := hfirst
      cases outcome' with
      | error e => exact ⟨rfl, halike⟩
      | ok count =>
        have hrest := ih halike (hreader ▸ hr) (done + 1)
        exact ⟨congrArg (Except.map (count + ·)) hrest.result, hrest.alike⟩

theorem Alike.loadDirectory (h : Alike n s t) (hr : s.reader.Proper) (files : FileTree) (w : Watch)
    (cancel : Cancellation) (dir : String) :
    Agree n (s.loadDirectory files w cancel dir) (t.loadDirectory files w cancel dir) :=
  Alike.loadEach (h.congr (sameCatalog_watch s dir w) (sameCatalog_watch t dir w)) hr files w
    cancel 0 (sourcesIn files dir)

/-- The attachments that an addon asks for. -/
def linksOf (s : Store) (a : Component) : List (Nat × String) :=
  ((a.extendedIds.flatMap s.keysOf).filter fun k => (s.find? k).any (·.hosts a)).map
    fun k => (k, a.uniqueId)

theorem links_eq (s : Store) :
    s.links = (s.entries.filter fun e => e.2.kind = .addon).flatMap fun e => s.linksOf e.2 := by
  unfold links components entries
  rw [List.filter_map, List.filter_map, List.flatMap_map, List.flatMap_map]
  rfl

theorem Alike.linksOf (h : Alike n s t) (a : Component) :
    t.linksOf a = (s.linksOf a).map fun l => (l.1 + n, l.2) := by
  have hhosts : Unattached (·.hosts a) := fun _ => rfl
  have hany : (fun k => (t.find? k).any (·.hosts a)) ∘ (· + n) =
      fun k => (s.find? k).any (·.hosts a) := funext fun k => h.shifted.any_find? hhosts k
  have hkeys : a.extendedIds.flatMap t.keysOf = (a.extendedIds.flatMap s.keysOf).map (· + n) := by
    rw [List.map_flatMap]
    exact congrArg (a.extendedIds.flatMap ·) (funext (h.shifted.keysOf h.left h.right))
  unfold Store.linksOf
  rw [hkeys, List.filter_map, hany, List.map_map, List.map_map]
  rfl

theorem Alike.links (h : Alike n s t) : t.links = s.links.map fun l => (l.1 + n, l.2) := by
  have hkind : (fun e : Nat × Component => decide (e.2.kind = .addon)) ∘ lift n =
      fun e => decide (e.2.kind = .addon) := rfl
  rw [links_eq, links_eq, h.shifted.entries, List.filter_map, hkind, List.flatMap_map,
    List.map_flatMap]
  exact congrArg (List.flatMap · _) (funext fun e => h.linksOf e.2)

/-- The records with their attachments, each under its key. -/
def listing (s : Store) : List (Nat × Component) := s.records.map fun r => (r.key, r.component)

theorem components_eq_listing (s : Store) : s.components = s.listing.map (·.2) := by
  unfold components listing
  rw [List.map_map]
  rfl

def withAddon (addon : String) (c : Component) : Component :=
  if addon ∈ c.addons then c else { c with addons := c.addons ++ [addon] }

theorem listing_attach (s : Store) (key : Nat) (addon : String) :
    (s.modify key (Record.attach addon)).listing = s.listing.map (alter key (withAddon addon)) := by
  unfold listing modify
  rw [List.map_map, List.map_map]
  apply List.map_congr_left
  intro r _
  by_cases hk : r.key = key
  · by_cases haddon : addon ∈ r.component.addons <;>
      simp [alter, withAddon, Record.attach, Record.replace, hk, haddon]
  · simp [alter, hk]

theorem listing_detachAll (h : s.TokensApart) :
    ({ s with records := s.records.map Record.detachAll } : Store).listing = s.entries := by
  unfold listing entries
  rw [List.map_map]
  apply List.map_congr_left
  intro r hr
  have hbare : { r.component with addons := [] } = r.component.bare := by
    unfold Component.bare
    rw [← h r hr]
  by_cases haddons : r.component.addons = []
  · have hsame : r.component.bare = r.component := by
      rw [← hbare, ← haddons]
    simp [Record.detachAll, haddons, hsame]
  · simp [Record.detachAll, Record.replace, haddons, hbare]

/-- With the addons attached anew, both catalogs hold the same components. -/
theorem Alike.components_attachAddons (h : Alike n s t) (hs : s.TokensApart)
    (ht : t.TokensApart) :
    t.attachAddons.2.components = s.attachAddons.2.components := by
  have hfold (ls : List (Nat × String)) {s t : Store} (h : t.listing = s.listing.map (lift n)) :
      ((ls.map fun l => (l.1 + n, l.2)).foldl
        (fun t l => t.modify l.1 (Record.attach l.2)) t).listing =
      (ls.foldl (fun t l => t.modify l.1 (Record.attach l.2)) s).listing.map (lift n) := by
    induction ls generalizing s t with
    | nil => exact h
    | cons l ls ih =>
      apply ih
      rw [listing_attach, listing_attach, h, List.map_map, List.map_map]
      exact List.map_congr_left fun e _ => alter_lift n l.1 (withAddon l.2) e
  have hbare : ({ t with records := t.records.map Record.detachAll } : Store).listing =
      ({ s with records := s.records.map Record.detachAll } : Store).listing.map (lift n) := by
    rw [listing_detachAll hs, listing_detachAll ht, h.shifted.entries]
  have hattach (s : Store) : s.attachAddons.2 =
      s.links.foldl (fun t l => t.modify l.1 (Record.attach l.2))
        { s with records := s.records.map Record.detachAll } := rfl
  rw [components_eq_listing, components_eq_listing, hattach, hattach, h.links, hfold _ hbare,
    List.map_map]
  rfl

end Store

end SoftwareCatalog
