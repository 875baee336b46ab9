import SoftwareCatalog.Proofs.Store.Covering
import SoftwareCatalog.Proofs.Store.PrimaryIndex

namespace SoftwareCatalog.Store

theorem metadataBuckets_eq (s : Store) (k : String) :
    s.metadataBuckets k = s.entries.foldl (fun m e =>
      (e.2.metadata.get? k).elim m fun v => m.modifyD v [] (· ++ [e.1])) .empty := by
  have hmetadata (r : Record) : r.component.bare.metadata = r.component.metadata := rfl
  unfold metadataBuckets entries
  rw [List.foldl_map]
  congr 1
  funext m r
  rw [hmetadata]
  cases r.component.metadata.get? k <;> rfl

theorem getD_metadataBuckets (s : Store) (k v : String) :
    (s.metadataBuckets k).getD v [] =
      (s.records.filter fun r => r.component.metadata.get? k == some v).map Record.key := by
  have hfold (es : List (Nat × Component)) (m : TextMap (List Nat)) :
      (es.foldl (fun m e =>
        (e.2.metadata.get? k).elim m fun v => m.modifyD v [] (· ++ [e.1])) m).getD v [] =
      m.getD v [] ++ (es.filter fun e => e.2.metadata.get? k == some v).map Prod.fst := by
    induction es generalizing m with
    | nil => simp
    | cons e es ih =>
      rw [List.foldl_cons, ih]
      cases hvalue : e.2.metadata.get? k with
      | none => simp [hvalue]
      | some w =>
        by_cases hw : w = v
        · simp [hvalue, hw, TextMap.getD, TextMap.get?_modifyD]
        · simp [hvalue, hw, Ne.symm hw, TextMap.getD, TextMap.get?_modifyD]
  rw [metadataBuckets_eq, hfold, entries, List.filter_map, List.map_map]
  rfl

theorem metadataBuckets_congr {s t : Store} (h : t.entries = s.entries) (k : String) :
    t.metadataBuckets k = s.metadataBuckets k := by
  rw [metadataBuckets_eq, metadataBuckets_eq, h]

/-- Nothing is indexed by metadata after a change, or the change left the records. -/
def Voids (s t : Store) : Prop :=
  t.keysByMetadata = .empty ∨ (t.keysByMetadata = s.keysByMetadata ∧ t.entries = s.entries)

namespace Voids

variable {s t u : Store}

theorem refl (s : Store) : Voids s s := .inr ⟨rfl, rfl⟩

theorem trans (h : Voids s t) (k : Voids t u) : Voids s u := by
  rcases k with hvoid | ⟨hkeys, hentries⟩
  · exact .inl hvoid
  · rcases h with hvoid | ⟨hkeys', hentries'⟩
    · exact .inl (hkeys.trans hvoid)
    · exact .inr ⟨hkeys.trans hkeys', hentries.trans hentries'⟩

end Voids

theorem keysByMetadata_refresh {s : Store} {key : Nat} {c : Component} (h : s.find? key = some c)
    (previous : String) : (s.refresh key previous).keysByMetadata = .empty := by
  rw [refresh_eq h]
  rfl

theorem keysByMetadata_removeKey {s : Store} {key : Nat} {c : Component}
    (h : s.find? key = some c) : (s.removeKey key).keysByMetadata = .empty := by
  rw [removeKey_eq h]
  rfl

theorem covers_voids : Covers Voids where
  refl := .refl
  trans := .trans
  pooled _ _ := .inr ⟨rfl, rfl⟩
  patched _ _ := .inr ⟨rfl, rfl⟩
  insert _ _ := .inl rfl
  refresh h previous := .inl (keysByMetadata_refresh h previous)
  removeKey h := .inl (keysByMetadata_removeKey h)

theorem voids_attachAddons (s : Store) : Voids s s.attachAddons.2 := by
  refine .inr ⟨?_, s.sameCatalog_attachAddons.entries⟩
  obtain ⟨records, hattach⟩ := s.exists_attachAddons
  rw [hattach]

/-- Each index by metadata that was built on request is the one of the present records. -/
def MetadataIndexed (s : Store) : Prop :=
  ∀ k buckets, s.keysByMetadata.get? k = some buckets → buckets = s.metadataBuckets k

variable {s t : Store}

theorem MetadataIndexed.voids (h : s.MetadataIndexed) (k : Voids s t) : t.MetadataIndexed := by
  intro key buckets hindexed
  rcases k with hvoid | ⟨hkeys, hentries⟩
  · rw [hvoid] at hindexed
    cases hindexed
  · rw [metadataBuckets_congr hentries]
    exact h key buckets (hkeys ▸ hindexed)

theorem MetadataIndexed.query (h : s.MetadataIndexed) (key value : String) :
    (s.byMetadata key value).2.MetadataIndexed := by
  unfold byMetadata
  split
  · exact h
  · intro k buckets hindexed
    have hget : (if k = key then some (s.metadataBuckets key) else s.keysByMetadata.get? k) =
        some buckets := by
      rw [← TextMap.get?_insert]
      exact hindexed
    split at hget
    · rename_i hk
      rw [← Option.some.inj hget, hk]
      rfl
    · exact h k buckets hget

theorem MetadataIndexed.move {p : Component → Prop} (h : s.MetadataIndexed) (k : Move p s t) :
    t.MetadataIndexed := by
  cases k with
  | aside | inhibit | release => exact h
  | @add c _ => exact h.voids (covers_voids.add s c)
  | remove key => exact h.voids (covers_voids.remove s key)
  | strip filename count key => exact h.voids (covers_voids.strip filename (count, s) key)
  | forget _ => exact h
  | attachAddons => exact h.voids s.voids_attachAddons
  | buildTokens => exact h.voids (.inr ⟨rfl, s.sameCatalog_buildTokens.entries⟩)
  | queryMetadata key value => exact h.query key value

theorem Reachable.metadataIndexed {settings : Settings} {reader : Reader} (hr : reader.Proper)
    (h : Reachable settings reader s) : s.MetadataIndexed := by
  obtain ⟨ops, hops, rfl⟩ := h
  have hstart : (new settings reader).MetadataIndexed := by
    intro k buckets hindexed
    cases hindexed
  have hbrings : ∀ op ∈ ops, Operation.Brings Component.Proper op :=
    fun op hop => (hops op hop).brings
  have hreader : (new settings reader).reader.Proper := hr
  exact run_induction untranslated_proper (fun _ _ k hs => MetadataIndexed.move hs k) hreader
    hbrings (fun _ _ _ _ hs => hs) hstart

/-- A query answers by a scan, whether it is made now or was made before. -/
theorem MetadataIndexed.byMetadata_eq (h : s.MetadataIndexed) (key value : String) :
    (s.byMetadata key value).1 = s.resolve ((s.metadataBuckets key).getD value []) := by
  cases hindexed : s.keysByMetadata.get? key with
  | none => simp [byMetadata, hindexed]
  | some buckets =>
    have hcurrent := h key buckets hindexed
    simp [byMetadata, hindexed, hcurrent]

theorem Keyed.resolve_metadataBuckets (hs : s.Keyed) (key value : String) :
    s.resolve ((s.metadataBuckets key).getD value []) =
      s.components.filter fun c => c.metadata.get? key == some value := by
  rw [getD_metadataBuckets, hs.resolve_filter, components, List.filter_map]
  rfl

/-- In every catalog that operations lead to, queries among them, a query by metadata answers the
components that have the value for the key, in their order. -/
theorem byMetadata_exact {settings : Settings} {reader : Reader} (hr : reader.Proper)
    (h : Reachable settings reader s) (key value : String) :
    (s.byMetadata key value).1 =
      s.components.filter fun c => c.metadata.get? key == some value := by
  have hkeyed := (h.wellIndexed hr).keyed
  rw [(h.metadataIndexed hr).byMetadata_eq, hkeyed.resolve_metadataBuckets]

/-- A component whose metadata tells a state. -/
def inState (id state : String) : Component :=
  { Component.ofId id with metadata := .ofList [("state", state)] }

/-- A component that changes its state after a query is found by the new one, in the order of
components. -/
theorem byMetadata_after_change :
    Reader.any.Proper ∧
    (((new ⟨{}, {}, ⟨["en"], 4, true, 3⟩⟩ Reader.any).run
      [.add (inState "a" "draft"), .add (inState "b" "final"), .queryMetadata "state" "final",
        .add (inState "a" "final")]).byMetadata "state" "final").1 =
      [inState "a" "final", inState "b" "final"] := by
  refine ⟨Reader.proper_any, ?_⟩
  have hproper (id state : String) : (inState id state).Proper := Component.proper_setId {} id
  have hops : ∀ op ∈ [Operation.add (inState "a" "draft"), .add (inState "b" "final"),
      .queryMetadata "state" "final", .add (inState "a" "final")], op.Proper := by
    intro op hop
    simp only [List.mem_cons, List.not_mem_nil, or_false] at hop
    rcases hop with rfl | rfl | rfl | rfl
    · exact hproper "a" "draft"
    · exact hproper "b" "final"
    · trivial
    · exact hproper "a" "final"
  have hreach : Reachable ⟨{}, {}, ⟨["en"], 4, true, 3⟩⟩ Reader.any _ := ⟨_, hops, rfl⟩
  rw [byMetadata_exact Reader.proper_any hreach]
  decide +kernel

end SoftwareCatalog.Store
