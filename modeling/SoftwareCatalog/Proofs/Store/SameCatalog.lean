import SoftwareCatalog.Proofs.Store.Entries

namespace SoftwareCatalog.Store

/-- Two catalogs that differ at most in attachments, tokens, pooled texts, events, watches and in
what was indexed on request. -/
structure SameCatalog (s t : Store) : Prop where
  settings : t.settings = s.settings
  reader : t.reader = s.reader
  entries : t.entries = s.entries
  nextKey : t.nextKey = s.nextKey
  keysById : t.keysById = s.keysById
  keyByUniqueId : t.keyByUniqueId = s.keyByUniqueId
  keyByPkgname : t.keyByPkgname = s.keyByPkgname
  patches : t.patches = s.patches

namespace SameCatalog

variable {s t u : Store}

theorem refl (s : Store) : SameCatalog s s := ⟨rfl, rfl, rfl, rfl, rfl, rfl, rfl, rfl⟩

theorem trans (h : SameCatalog s t) (k : SameCatalog t u) : SameCatalog s u :=
  ⟨k.settings.trans h.settings, k.reader.trans h.reader, k.entries.trans h.entries,
    k.nextKey.trans h.nextKey, k.keysById.trans h.keysById,
    k.keyByUniqueId.trans h.keyByUniqueId, k.keyByPkgname.trans h.keyByPkgname,
    k.patches.trans h.patches⟩

theorem patchesFor (h : SameCatalog s t) (id : String) : t.patchesFor id = s.patchesFor id := by
  unfold Store.patchesFor
  rw [h.patches]

/-- Changes of records that leave keys and all but attachments alone. -/
theorem mapRecords (s : Store) {g : Record → Record} (hkey : ∀ r, (g r).key = r.key)
    (hbare : ∀ r, (g r).component.bare = r.component.bare) :
    SameCatalog s { s with records := s.records.map g } :=
  ⟨rfl, rfl, entries_mapRecords s hkey hbare, rfl, rfl, rfl, rfl, rfl⟩

theorem mapRecordsWhere (s : Store) (p : Record → Prop) [DecidablePred p] {g : Record → Record}
    (hkey : ∀ r, (g r).key = r.key) (hbare : ∀ r, (g r).component.bare = r.component.bare) :
    SameCatalog s { s with records := s.records.map fun r => if p r then g r else r } := by
  apply mapRecords
  · intro r
    split
    · exact hkey r
    · rfl
  · intro r
    split
    · exact hbare r
    · rfl

end SameCatalog

theorem sameCatalog_link (s : Store) (addon : Component) : SameCatalog s (s.link addon) :=
  .mapRecordsWhere s _ (Record.key_attach _) (Record.bare_attach _)

theorem sameCatalog_unlink (s : Store) (ids : List String) (addon : String) :
    SameCatalog s (s.unlink ids addon) :=
  .mapRecordsWhere s _ (Record.key_detach _) (Record.bare_detach _)

theorem sameCatalog_announce (s : Store) (e : ChangeEvent) : SameCatalog s (s.announce e) :=
  ⟨rfl, rfl, rfl, rfl, rfl, rfl, rfl, rfl⟩

theorem sameCatalog_inhibit (s : Store) : SameCatalog s s.inhibit.2 :=
  ⟨rfl, rfl, rfl, rfl, rfl, rfl, rfl, rfl⟩

theorem sameCatalog_release (s : Store) (guard : Nat) : SameCatalog s (s.release guard) :=
  ⟨rfl, rfl, rfl, rfl, rfl, rfl, rfl, rfl⟩

theorem sameCatalog_purgePool (s : Store) : SameCatalog s s.purgePool.2 :=
  ⟨rfl, rfl, rfl, rfl, rfl, rfl, rfl, rfl⟩

theorem sameCatalog_watch (s : Store) (path : String) (w : Watch) :
    SameCatalog s (s.watch path w) :=
  ⟨rfl, rfl, rfl, rfl, rfl, rfl, rfl, rfl⟩

theorem sameCatalog_unwatch (s : Store) (path : String) : SameCatalog s (s.unwatch path) :=
  ⟨rfl, rfl, rfl, rfl, rfl, rfl, rfl, rfl⟩

theorem sameCatalog_settle (s : Store) : SameCatalog s s.settle := by
  unfold settle
  split
  · exact .refl s
  · exact s.sameCatalog_purgePool

theorem sameCatalog_internAll (s : Store) (texts : List String) :
    SameCatalog s { s with pool := s.pool.internAll texts } :=
  ⟨rfl, rfl, rfl, rfl, rfl, rfl, rfl, rfl⟩

theorem sameCatalog_withStemmer (s : Store) (stem : Stem.Stemmer) :
    SameCatalog s (s.withStemmer stem) :=
  ⟨rfl, rfl, rfl, rfl, rfl, rfl, rfl, rfl⟩

theorem sameCatalog_buildTokens (s : Store) : SameCatalog s s.buildTokens :=
  .mapRecords s (fun _ => rfl) fun _ => rfl

theorem sameCatalog_byMetadata (s : Store) (key value : String) :
    SameCatalog s (s.byMetadata key value).2 := by
  unfold byMetadata
  split
  · exact .refl s
  · exact ⟨rfl, rfl, rfl, rfl, rfl, rfl, rfl, rfl⟩

theorem sameCatalog_attach (s : Store) (key : Nat) (addon : String) :
    SameCatalog s (s.modify key (Record.attach addon)) :=
  .mapRecordsWhere s _ (Record.key_attach _) (Record.bare_attach _)

theorem sameCatalog_attachAddons (s : Store) : SameCatalog s s.attachAddons.2 := by
  have hfold (links : List (Nat × String)) (t : Store) :
      SameCatalog t (links.foldl (fun t l => t.modify l.1 (Record.attach l.2)) t) := by
    induction links generalizing t with
    | nil => exact .refl t
    | cons l links ih => exact (t.sameCatalog_attach l.1 l.2).trans (ih _)
  exact (SameCatalog.mapRecords s Record.key_detachAll Record.bare_detachAll).trans (hfold _ _)

end SoftwareCatalog.Store
