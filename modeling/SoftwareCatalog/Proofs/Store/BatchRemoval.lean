import SoftwareCatalog.Proofs.Store.MetadataQuery
import SoftwareCatalog.Proofs.Store.PatchQueue
import SoftwareCatalog.Proofs.Store.Survival
import SoftwareCatalog.Proofs.Store.UniqueIdQuery

namespace SoftwareCatalog.Store

variable {s : Store} {p : Component → Bool} {x : String}

/-- The components that satisfy `p` are gone and counted. The others stay in their order as they
are, but for attachments, and patches stay as well. Tokens stay too, unless an addon that extends the
component is gone. -/
structure Cleared (p : Component → Bool) (s : Store) (r : Nat × Store) : Prop where
  components : r.2.components.map Component.bare =
    (s.components.filter fun c => !p c).map Component.bare
  count : r.1 = s.components.countP p
  patches : r.2.patches = s.patches
  records : ∀ record ∈ r.2.records, record ∈ s.records ∨ ∃ old ∈ s.records,
    record.key = old.key ∧ record.tokens = none ∧ ∃ a ∈ s.components,
      a.kind = .addon ∧ p a = true ∧ a.Extends old.component

theorem WellIndexed.survived_removeKeys (hs : s.WellIndexed) (p : Component → Bool) :
    Survived (s.Follows p) s (s.removeKeys (s.keysWhere p)).2 := by
  have hinhibited : Survived (s.Follows p) s s.inhibit.2 := .refl s
  have hremoved : Survived (s.Follows p) s (s.inhibit.2.removeEach (s.keysWhere p)).2 := by
    refine survived_foldl (fun r key => edits_removeKey r.2 key) ?_ hs.keyed (fun _ => id)
      hs.inhibit hinhibited
    intro r key hr hmoved
    exact survived_removeKey key hmoved (hr.edits (edits_removeKey r.2 key))
  exact hremoved.same (records_settle _)

theorem WellIndexed.cleared_removeKeys (hs : s.WellIndexed) (hp : Unattached p) :
    Cleared p s (s.removeKeys (s.keysWhere p)) := by
  have hentries : (s.removeKeys (s.keysWhere p)).2.entries =
      s.entries.filter fun e => !p e.2 := by
    rw [entries_removeKeys]
    refine List.filter_congr fun e he => ?_
    simp [hs.keyed.mem_keysWhere_iff hp he]
  have hleft : (s.removeKeys (s.keysWhere p)).2.components.map Component.bare =
      (s.components.filter fun c => !p c).map Component.bare := by
    have hothers : Unattached fun c => !p c := fun c => congrArg not (hp c)
    rw [bare_components, hentries, s.map_snd_filter_entries hothers]
  have hcount : (s.removeKeys (s.keysWhere p)).1 + (s.components.filter fun c => !p c).length =
      s.components.length := by
    have hgone := hs.length_removeKeys (s.keysWhere p)
    have hstays := congrArg List.length hleft
    rw [List.length_map, List.length_map] at hstays
    rwa [length_entries, length_entries, hstays] at hgone
  refine ⟨hleft, by simpa using count_of_left hcount, s.patches_removeKeys _, ?_⟩
  intro r hr
  obtain ⟨q, hq, hsurvives⟩ := hs.survived_removeKeys p r hr
  rcases hsurvives.tokens with ⟨formats, rfl⟩ | ⟨hnone, a, hfollows, hextends⟩
  · have hentry : (q.key, Component.bare { q.component with formats }) ∈
        (s.removeKeys (s.keysWhere p)).2.entries := List.mem_map_of_mem hr
    rw [hentries] at hentry
    have hsame := hs.keyed.component_eq (List.mem_of_mem_filter hentry) (List.mem_map_of_mem hq)
    have hformats : formats = q.component.formats := congrArg Component.formats hsame
    exact .inl (hformats ▸ hq)
  · exact .inr ⟨q, hq, hsurvives.key, hnone, hfollows.extends hextends⟩

/-- What was removed is not there any longer. -/
theorem Cleared.filter_eq_nil {r : Nat × Store} (h : Cleared p s r) (hp : Unattached p) :
    r.2.components.filter p = [] := by
  have hbare : (p ∘ Component.bare) = p := funext hp
  have hnone : (r.2.components.filter p).map Component.bare = [] := by
    rw [← hbare, ← List.filter_map, h.components, List.filter_map, hbare, List.filter_filter]
    simp
  exact List.map_eq_nil_iff.1 hnone

/-- Where no component has an ID, a unique ID with this ID leads nowhere, not even as a wildcard. -/
theorem UniquelyIndexed.byUniqueId_eq_none (h : s.UniquelyIndexed) {c : Component}
    (hid : c.id = some x) (hx : x ≠ "") (hwild : x ≠ UniqueId.wildcard)
    (hc : c.identity.Unbroken) (hnone : s.byId x = []) : s.byUniqueId c.uniqueId = none := by
  have hother : ∀ d ∈ s.components, d.id ≠ some x := by
    rw [h.wellIndexed.byId_eq, List.filter_eq_nil_iff] at hnone
    simpa using hnone
  unfold byUniqueId
  split
  · rename_i k hk
    cases hd : s.find? k with
    | none => rfl
    | some d =>
      have hentry := mem_entries_of_find? hd
      have huid : d.bare.uniqueId = c.uniqueId := h.right _ k d.bare hk hentry
      obtain ⟨y, hdy, hy⟩ := h.wellIndexed.named _ hentry
      have hxy : x = y := Component.id_eq_of_uniqueId hid hx hdy hy huid.symm hc.valid_render
      exact absurd (hxy ▸ hdy) (hother d (mem_components_of_find? hd))
  · have hagreeing : s.agreeing c.uniqueId = [] := by
      have hread : (UniqueId.parse c.uniqueId).toOption.bind (·.id) = some x :=
        hc.parse_id hid hx hwild
      unfold agreeing
      rw [hread]
      simp [hnone]
    simp [hagreeing]

/-- In every catalog that operations lead to, the components with an ID, and those with a value for
a metadata key, are removed and counted, and no query finds them any longer. Nor does the unique ID
of one of them that was removed by its ID, if its texts are of one segment each, although a part that
was not set makes it a wildcard. -/
theorem removed_in_batch {settings : Settings} {reader : Reader} (hr : reader.Proper)
    (h : Reachable settings reader s) :
    (∀ x, Cleared (·.id == some x) s (s.removeById x) ∧ (s.removeById x).2.byId x = [] ∧
      (x ≠ UniqueId.wildcard → ∀ c ∈ s.components, c.id = some x → c.identity.Unbroken →
        (s.removeById x).2.byUniqueId c.uniqueId = none)) ∧
    ∀ key value, Cleared (·.metadata.get? key == some value) s (s.removeByMetadata key value) ∧
      ((s.removeByMetadata key value).2.byMetadata key value).1 = [] := by
  have hs := h.wellIndexed hr
  constructor
  · intro x
    have hafter : Reachable settings reader (s.removeById x).2 :=
      h.apply (.removeById x) trivial
    have hcleared : Cleared (·.id == some x) s (s.removeById x) := by
      rw [removeById, hs.keysOf_eq_keysWhere]
      exact hs.cleared_removeKeys fun _ => rfl
    have hnone : (s.removeById x).2.byId x = [] := by
      rw [(hafter.wellIndexed hr).byId_eq]
      exact hcleared.filter_eq_nil fun _ => rfl
    refine ⟨hcleared, hnone, ?_⟩
    intro hwild c hc hid hunbroken
    obtain ⟨y, hy, hne⟩ := hs.named_component hc
    have hxy : x = y := Option.some.inj (hid.symm.trans hy)
    exact (hafter.uniquelyIndexed hr).byUniqueId_eq_none hid (hxy ▸ hne) hwild hunbroken hnone
  · intro key value
    have hafter : Reachable settings reader (s.removeByMetadata key value).2 :=
      h.apply (.removeByMetadata key value) trivial
    have hcleared := hs.cleared_removeKeys (p := (·.metadata.get? key == some value)) fun _ => rfl
    refine ⟨hcleared, ?_⟩
    rw [(hafter.metadataIndexed hr).byMetadata_eq,
      (hafter.wellIndexed hr).keyed.resolve_metadataBuckets]
    exact hcleared.filter_eq_nil fun _ => rfl

/-- Two builds of one tool and a draft. -/
def buildsAndDraft : Store := twoBuilds.add (inState "a" "draft")

/-- Both builds go by their ID, and the unique ID that they shared leads nowhere afterwards; the
draft goes by its state. -/
theorem removed_builds_and_draft :
    Reader.any.Proper ∧ (buildsAndDraft.removeById "org.example.Tool").1 = 2 ∧
    (buildsAndDraft.removeById "org.example.Tool").2.byUniqueId (builtFor "x86_64").uniqueId = none ∧
    (buildsAndDraft.removeByMetadata "state" "draft").1 = 1 ∧
    ((buildsAndDraft.removeByMetadata "state" "draft").2.byMetadata "state" "draft").1 = [] := by
  have hreach : Reachable ⟨⟨true, false, false⟩, {}, ⟨["en"], 4, true, 3⟩⟩ Reader.any
      buildsAndDraft := twoBuilds_reachable.apply (.add _) (Component.proper_setId {} "a")
  obtain ⟨hid, hmetadata⟩ := removed_in_batch Reader.proper_any hreach
  obtain ⟨hbuilds, -, hgone⟩ := hid "org.example.Tool"
  obtain ⟨hdraft, hnone⟩ := hmetadata "state" "draft"
  refine ⟨Reader.proper_any, ?_, ?_, ?_, hnone⟩
  · rw [hbuilds.count]
    decide +kernel
  · exact hgone (by decide) (builtFor "x86_64") (by decide +kernel) rfl (by decide +kernel)
  · rw [hdraft.count]
    decide +kernel

end SoftwareCatalog.Store
