import Mathlib.Data.List.Nodup
import Mathlib.Data.List.ProdSigma
import SoftwareCatalog.Proofs.Component.FirstCome
import SoftwareCatalog.Proofs.Source.Extending
import SoftwareCatalog.Proofs.Source.Stamped
import SoftwareCatalog.Proofs.Store.AddonSupport
import SoftwareCatalog.Proofs.Store.Inheritance
import SoftwareCatalog.Proofs.Store.Lasting

namespace SoftwareCatalog

namespace Component

/-- An addon belongs to a component that it extends, where both have one scope and are delivered in
one kind of bundle. -/
structure BelongsTo (a c : Component) : Prop where
  kind : a.kind = .addon
  extended : a.Extends c
  scope : a.scope = c.scope
  bundleKind : a.bundleKind = c.bundleKind

theorem belongsTo_iff {a c : Component} :
    a.BelongsTo c ↔ a.kind = .addon ∧ a.Extends c ∧ c.hosts a = true := by
  rw [hosts, Bool.and_eq_true, beq_iff_eq, beq_iff_eq]
  exact ⟨fun h => ⟨h.kind, h.extended, h.scope.symm, h.bundleKind.symm⟩,
    fun h => ⟨h.1, h.2.1, h.2.2.1.symm, h.2.2.2.symm⟩⟩

instance (a c : Component) : Decidable (a.BelongsTo c) := decidable_of_iff _ belongsTo_iff.symm

/-- The unique IDs of the addons that belong to a component, in their order and each once. -/
def attachments (cs : List Component) (c : Component) : List String :=
  ((cs.filter fun a => a.BelongsTo c).map (·.uniqueId)).eraseDups

/-- The number of pairs of an addon and a component that it belongs to. -/
def pairings (cs : List Component) : Nat :=
  (cs ×ˢ cs).countP fun q => q.1.BelongsTo q.2

theorem belongsTo_bare {a c : Component} : a.bare.BelongsTo c.bare ↔ a.BelongsTo c :=
  ⟨fun h => ⟨h.kind, h.extended, h.scope, h.bundleKind⟩,
    fun h => ⟨h.kind, h.extended, h.scope, h.bundleKind⟩⟩

theorem attachments_bare (cs : List Component) (c : Component) :
    attachments (cs.map bare) c.bare = attachments cs c := by
  unfold attachments
  rw [List.filter_map, List.map_map]
  simp only [Function.comp_def, belongsTo_bare, bare_uniqueId]

theorem pairings_bare (cs : List Component) : pairings (cs.map bare) = pairings cs := by
  simp only [pairings, SProd.sprod, List.product, List.flatMap_map, List.map_map, List.countP_flatMap,
    List.countP_map, Function.comp_def, belongsTo_bare]

end Component

namespace Record

/-- A record with certain attachments. Its tokens stay only if nothing is or was attached. -/
def withAddons (ids : List String) (r : Record) : Record where
  key := r.key
  component := { r.component with addons := ids }
  tokens := if r.component.addons = [] ∧ ids = [] then r.tokens else none

variable {ids : List String} {r : Record}

theorem bare_withAddons : (r.withAddons ids).component.bare = r.component.bare := rfl

theorem detachAll_eq (r : Record) : r.detachAll = r.withAddons [] := by
  by_cases hnone : r.component.addons = []
  · have hsame : { r.component with addons := [] } = r.component := by rw [← hnone]
    simp [detachAll, withAddons, hnone, hsame]
  · simp [detachAll, withAddons, replace, hnone]

theorem attach_withAddons (u : String) :
    (r.withAddons ids).attach u = r.withAddons (addNew ids u) := by
  by_cases hu : u ∈ ids
  · simp [attach, withAddons, addNew, addUnlessSame, hu]
  · simp [attach, withAddons, addNew, addUnlessSame, replace, hu]

theorem foldl_attach_withAddons (us : List String) :
    us.foldl (fun q u => q.attach u) (r.withAddons ids) = r.withAddons (us.foldl addNew ids) := by
  induction us generalizing ids with
  | nil => rfl
  | cons u us ih => rw [List.foldl_cons, attach_withAddons, ih, List.foldl_cons]

theorem withAddons_withAddons : (r.withAddons ids).withAddons ids = r.withAddons ids := by
  by_cases hnone : ids = [] <;> simp [withAddons, hnone]

end Record

namespace Store

open Component (BelongsTo ExtendsOnce attachments pairings)

variable {s t : Store} {a : Component} {r : Record}

theorem lasting_extendsOnce : Component.Lasting ExtendsOnce where
  bare _ := Iff.rfl
  subsume flags _ d h := h.subsume flags d
  strip _ _ h := h

theorem untranslated_extendsOnce : Component.Untranslated ExtendsOnce := fun _ _ h => h

/-- The keys of the records that an addon belongs to, as its list of IDs leads to them. -/
def hostKeys (s : Store) (a : Component) : List Nat :=
  (a.extendedIds.flatMap s.keysOf).filter fun k => (s.find? k).any (·.hosts a)

theorem links_eq_flatMap (s : Store) : s.links =
    (s.components.filter fun a => a.kind = .addon).flatMap fun a =>
      (s.hostKeys a).map fun k => (k, a.uniqueId) := rfl

theorem WellIndexed.mem_hostKeys_iff (h : s.WellIndexed) (ha : a.kind = .addon)
    (hr : r ∈ s.records) : r.key ∈ s.hostKeys a ↔ a.BelongsTo r.component := by
  unfold hostKeys
  rw [List.mem_filter, h.mem_extended_iff hr, h.keyed.find?_record hr, Option.any_some,
    Component.belongsTo_iff, and_iff_right ha]

theorem WellIndexed.nodup_hostKeys (h : s.WellIndexed) (ha : a.ExtendsOnce) :
    (s.hostKeys a).Nodup := by
  apply List.Nodup.filter
  rw [List.nodup_flatMap]
  constructor
  · intro x _
    rw [h.keysOf_eq]
    exact h.keyed.nodup_keysNamed x
  · apply List.Pairwise.imp _ ha
    intro x y hne k hx hy
    -- a record has one ID
    rw [h.keysOf_eq] at hx hy
    obtain ⟨c, hc, hcx⟩ := mem_keysNamed.1 hx
    obtain ⟨d, hd, hdy⟩ := mem_keysNamed.1 hy
    rw [h.keyed.component_eq hc hd] at hcx
    exact hne (Option.some.inj (hcx.symm.trans hdy))

/-- Each record that an addon belongs to is found once. -/
theorem WellIndexed.hostKeys_perm (h : s.WellIndexed) (ha : a.ExtendsOnce)
    (hkind : a.kind = .addon) :
    (s.hostKeys a).Perm ((s.records.filter fun r => a.BelongsTo r.component).map (·.key)) := by
  have hkeys : ((s.records.filter fun r => a.BelongsTo r.component).map (·.key)).Nodup :=
    h.keyed.nodup_keys.sublist (List.filter_sublist.map _)
  rw [List.perm_ext_iff_of_nodup (h.nodup_hostKeys ha) hkeys]
  intro k
  constructor
  · intro hk
    obtain ⟨x, -, hkx⟩ := List.mem_flatMap.1 (List.mem_filter.1 hk).1
    rw [h.keysOf_eq] at hkx
    obtain ⟨c, hc, -⟩ := mem_keysNamed.1 hkx
    obtain ⟨r, hr, heq⟩ := List.mem_map.1 hc
    obtain ⟨rfl, -⟩ := Prod.mk.inj heq
    have hbelongs := (h.mem_hostKeys_iff hkind hr).1 hk
    exact List.mem_map.2 ⟨r, List.mem_filter.2 ⟨hr, by simpa using hbelongs⟩, rfl⟩
  · intro hk
    obtain ⟨r, hr, rfl⟩ := List.mem_map.1 hk
    obtain ⟨hstored, hbelongs⟩ := List.mem_filter.1 hr
    exact (h.mem_hostKeys_iff hkind hstored).2 (by simpa using hbelongs)

theorem records_foldl_attach (ls : List (Nat × String)) (t : Store) :
    (ls.foldl (fun t l => t.modify l.1 (Record.attach l.2)) t).records = t.records.map fun r =>
      ((ls.filter (·.1 == r.key)).map (·.2)).foldl (fun q u => q.attach u) r := by
  induction ls generalizing t with
  | nil => simp
  | cons l ls ih =>
    rw [List.foldl_cons, ih]
    unfold modify
    rw [List.map_map]
    apply List.map_congr_left
    intro r _
    by_cases hkey : r.key = l.1
    · simp [hkey, Record.key_attach]
    · simp [hkey, Ne.symm hkey]

/-- Of the links of an addon at most one leads to a record. -/
theorem WellIndexed.links_between (h : s.WellIndexed) (ha : a.ExtendsOnce)
    (hkind : a.kind = .addon) (hr : r ∈ s.records) :
    (((s.hostKeys a).map fun k => (k, a.uniqueId)).filter (·.1 == r.key)).map (·.2) =
      if a.BelongsTo r.component then [a.uniqueId] else [] := by
  have hfilter : (s.hostKeys a).filter ((·.1 == r.key) ∘ fun k => (k, a.uniqueId)) =
      List.replicate ((s.hostKeys a).count r.key) r.key := List.filter_beq r.key
  have hcount := (h.nodup_hostKeys ha).count (a := r.key)
  simp only [h.mem_hostKeys_iff hkind hr] at hcount
  rw [List.filter_map, hfilter, hcount, List.map_map, List.map_replicate]
  split <;> rfl

/-- The links to a record come from the addons that belong to it, in their order. -/
theorem WellIndexed.links_to (h : s.WellIndexed) (honce : ∀ a ∈ s.components, a.ExtendsOnce)
    (hr : r ∈ s.records) : (s.links.filter (·.1 == r.key)).map (·.2) =
      (s.components.filter fun a => a.BelongsTo r.component).map (·.uniqueId) := by
  rw [links_eq_flatMap]
  generalize s.components = as at honce
  induction as with
  | nil => rfl
  | cons a as ih =>
    rw [List.forall_mem_cons] at honce
    by_cases hkind : a.kind = .addon
    · rw [List.filter_cons_of_pos (by simpa using hkind), List.flatMap_cons, List.filter_append,
        List.map_append, ih honce.2, h.links_between honce.1 hkind hr]
      by_cases hbelongs : a.BelongsTo r.component <;> simp [hbelongs]
    · have hno : ¬ a.BelongsTo r.component := fun hbelongs => hkind hbelongs.kind
      rw [List.filter_cons_of_neg (by simpa using hkind), ih honce.2,
        List.filter_cons_of_neg (by simpa using hno)]

theorem WellIndexed.length_hostKeys (h : s.WellIndexed) (ha : a.ExtendsOnce)
    (hkind : a.kind = .addon) :
    (s.hostKeys a).length = s.components.countP fun c => a.BelongsTo c := by
  rw [(h.hostKeys_perm ha hkind).length_eq, List.length_map, ← List.countP_eq_length_filter,
    components, List.countP_map]
  rfl

/-- As many links are made as there are pairs of an addon and a component that it belongs to. -/
theorem WellIndexed.length_links (h : s.WellIndexed)
    (honce : ∀ a ∈ s.components, a.ExtendsOnce) : s.links.length = pairings s.components := by
  have hall (as : List Component) (honce : ∀ a ∈ as, a.ExtendsOnce) :
      ((as.filter fun a => a.kind = .addon).flatMap fun a =>
        (s.hostKeys a).map fun k => (k, a.uniqueId)).length =
        (as ×ˢ s.components).countP fun q => q.1.BelongsTo q.2 := by
    induction as with
    | nil => rfl
    | cons a as ih =>
      rw [List.forall_mem_cons] at honce
      have hsplit : ((a :: as) ×ˢ s.components).countP (fun q => q.1.BelongsTo q.2) =
          s.components.countP (fun c => a.BelongsTo c) +
            (as ×ˢ s.components).countP fun q => q.1.BelongsTo q.2 := by
        rw [List.product_cons, List.countP_append, List.countP_map]
        rfl
      by_cases hkind : a.kind = .addon
      · rw [List.filter_cons_of_pos (by simpa using hkind), List.flatMap_cons, List.length_append,
          List.length_map, h.length_hostKeys honce.1 hkind, ih honce.2, hsplit]
      · have hnone : s.components.countP (fun c => a.BelongsTo c) = 0 := by
          rw [List.countP_eq_zero]
          intro c _
          simpa using fun hbelongs : a.BelongsTo c => hkind hbelongs.kind
        rw [List.filter_cons_of_neg (by simpa using hkind), ih honce.2, hsplit, hnone,
          Nat.zero_add]
  exact hall s.components honce

/-- Each record gets what links lead to it, each unique ID once. -/
theorem records_attachAddons (s : Store) : s.attachAddons.2.records = s.records.map fun r =>
    r.withAddons ((s.links.filter (·.1 == r.key)).map (·.2)).eraseDups := by
  have hfold : s.attachAddons.2.records = _ :=
    records_foldl_attach s.links { s with records := s.records.map Record.detachAll }
  rw [hfold, List.map_map]
  apply List.map_congr_left
  intro r _
  rw [Function.comp_apply, Record.key_detachAll, Record.detachAll_eq,
    Record.foldl_attach_withAddons, foldl_addNew_eq_eraseDups]

theorem WellIndexed.attachAddons_eq (h : s.WellIndexed)
    (honce : ∀ a ∈ s.components, a.ExtendsOnce) : s.attachAddons = (pairings s.components,
      { s with records := s.records.map fun r =>
          r.withAddons (attachments s.components r.component) }) := by
  have hcount : s.attachAddons.1 = pairings s.components := h.length_links honce
  have hrecords : s.attachAddons.2.records = s.records.map fun r =>
      r.withAddons (attachments s.components r.component) := by
    rw [s.records_attachAddons]
    apply List.map_congr_left
    intro r hr
    rw [h.links_to honce hr]
    rfl
  obtain ⟨records, hsame⟩ := s.exists_attachAddons
  rw [hsame] at hrecords
  rw [← hcount, ← hrecords, ← hsame]

theorem WellIndexed.components_attachAddons (h : s.WellIndexed)
    (hapart : s.TokensApart) (honce : ∀ a ∈ s.components, a.ExtendsOnce) :
    s.attachAddons.2.components = (s.components.map Component.bare).map fun c =>
        { c with addons := attachments (s.components.map Component.bare) c } := by
  rw [h.attachAddons_eq honce]
  unfold components
  rw [List.map_map, List.map_map, List.map_map]
  apply List.map_congr_left
  intro r hr
  have hwith (ids : List String) : (r.withAddons ids).component =
      { r.component.bare with addons := ids } := by
    unfold Record.withAddons Component.bare
    rw [← hapart r hr]
  simp only [Function.comp_apply, Component.attachments_bare, hwith]

theorem map_bare_components (k : SameCatalog s t) :
    t.components.map Component.bare = s.components.map Component.bare := by
  have hentries := congrArg (List.map Prod.snd) k.entries
  simpa [entries, components, Function.comp_def] using hentries

/-- Nothing but what is stored decides on what is attached. -/
theorem WellIndexed.attachAddons_congr (h : s.WellIndexed) (honce : s.Consists ExtendsOnce)
    (hs : s.TokensApart) (ht : t.TokensApart) (k : SameCatalog s t) : t.attachAddons.1 = s.attachAddons.1 ∧
      t.attachAddons.2.components = s.attachAddons.2.components := by
  have hextends := honce.components lasting_extendsOnce
  have htextends := (honce.of_entries k.entries).components lasting_extendsOnce
  have hwell : t.WellIndexed := h.same k.sameIndices
  have hbare := map_bare_components k
  constructor
  · rw [hwell.attachAddons_eq htextends, h.attachAddons_eq hextends, ← Component.pairings_bare t.components,
      hbare, Component.pairings_bare]
  · rw [hwell.components_attachAddons ht htextends, h.components_attachAddons hs hextends, hbare]

/-- What was attached anew is attached as it should be. -/
theorem WellIndexed.attachAddons_again (h : s.WellIndexed) (honce : s.Consists ExtendsOnce)
    (hapart : s.TokensApart) :
    s.attachAddons.2.attachAddons = s.attachAddons := by
  have hsame := s.sameCatalog_attachAddons
  have hagain := (h.same hsame.sameIndices).attachAddons_eq
    ((honce.of_entries hsame.entries).components lasting_extendsOnce)
  have hrecords := congrArg (·.2.records) (h.attachAddons_eq (honce.components lasting_extendsOnce))
  have hstays : ∀ q ∈ s.attachAddons.2.records,
      q.withAddons (attachments s.attachAddons.2.components q.component) = q := by
    intro q hq
    obtain ⟨r, -, rfl⟩ := List.mem_map.1 (hrecords ▸ hq)
    have hattached : attachments s.attachAddons.2.components
        (r.withAddons (attachments s.components r.component)).component =
          attachments s.components r.component := by
      rw [← Component.attachments_bare, map_bare_components hsame, Record.bare_withAddons,
        Component.attachments_bare]
    rw [hattached, Record.withAddons_withAddons]
  have hstore : s.attachAddons.2.attachAddons.2 = s.attachAddons.2 := by
    rw [hagain]
    simp only
    rw [List.map_congr_left hstays, List.map_id']
  have hattached : s.attachAddons.2.TokensApart :=
    hapart.move (.attachAddons : Move (fun _ => False) s s.attachAddons.2)
  exact Prod.ext (h.attachAddons_congr honce hapart hattached hsame).1 hstore

/-- In every catalog that operations lead to, attaching all addons anew attaches to each component
the addons that belong to it, in the order of the catalog and each unique ID once, and counts the
pairs of an addon and a component that it belongs to. Tokens of records with attachments are void,
before or after; nothing else changes. What was attached already plays no part, so doing so again
changes nothing. Components that come in list once what they extend, as do all that calls can
make. -/
theorem addons_attached_anew {settings : Settings} {reader : Reader} (hr : reader.Proper)
    (hyields : reader.Yields ExtendsOnce) {ops : List Operation}
    (hops : ∀ op ∈ ops, Operation.Proper op ∧ op.Brings ExtendsOnce) {s : Store}
    (hs : s = (new settings reader).run ops) :
    s.attachAddons.1 = (s.components ×ˢ s.components).countP (fun q => q.1.BelongsTo q.2) ∧
    s.attachAddons.2 =
      { s with records := s.records.map fun r =>
          r.withAddons (attachments s.components r.component) } ∧
    (∀ attached : Record → List String, ∀ t : Store,
      t = { s with records := s.records.map fun r => r.withAddons (attached r) } →
        t.attachAddons.1 = s.attachAddons.1 ∧
          t.attachAddons.2.components = s.attachAddons.2.components) ∧
    s.attachAddons.2.attachAddons = s.attachAddons := by
  have hwell : s.WellIndexed :=
    Reachable.wellIndexed hr ⟨ops, fun op hop => (hops op hop).1, hs⟩
  have honce : s.Consists ExtendsOnce := by
    rw [hs]
    exact consists_run lasting_extendsOnce untranslated_extendsOnce hyields
      fun op hop => (hops op hop).2
  have hanew := hwell.attachAddons_eq (honce.components lasting_extendsOnce)
  have hapart : s.TokensApart := hs ▸ tokensApart_run settings reader ops
  refine ⟨congrArg Prod.fst hanew, congrArg Prod.snd hanew, ?_,
    hwell.attachAddons_again honce hapart⟩
  rintro attached t rfl
  apply hwell.attachAddons_congr honce hapart
  · intro r hr
    obtain ⟨q, hq, rfl⟩ := List.mem_map.1 hr
    exact hapart q hq
  exact SameCatalog.mapRecords s (fun _ => rfl) fun _ => rfl

/-- An editor that a user has. -/
def userEditor : Component := { Component.ofId "editor" with scope := .user }

/-- Its spelling, for a user or for all. -/
def spellingFor (scope : Scope) : Component :=
  { Component.ofId "spelling" with kind := .addon, scope, extendedIds := ["editor"] }

/-- What the editor has to do with is added and searched. -/
def editorAdditions : List Operation :=
  [.add userEditor, .add (spellingFor .user), .add (spellingFor .system), .buildTokens]

/-- The catalog of these, where unique IDs keep the two kinds of spelling apart. -/
def editorCatalog : Store :=
  (new ⟨⟨true, false, false⟩, {}, ⟨["en"], 4, false, 3⟩⟩ Reader.any).run editorAdditions

theorem spelling_attached_anew :
    Reader.any.Proper ∧ Reader.any.Yields ExtendsOnce ∧
    editorCatalog.attachAddons.1 = 1 ∧
    editorCatalog.attachAddons.2.components.map (·.addons) =
      [["user/*/*/addon/spelling/*"], [], []] := by
  have hops : ∀ op ∈ editorAdditions, Operation.Proper op ∧ op.Brings ExtendsOnce := by
    have hid (scope : Scope) : (spellingFor scope).Proper := Component.proper_setId {} "spelling"
    have heditor : userEditor.Proper := Component.proper_setId {} "editor"
    have honce (scope : Scope) : (spellingFor scope).ExtendsOnce := List.nodup_singleton "editor"
    have hnone : userEditor.ExtendsOnce := Component.extendsOnce_of_nil rfl
    simp [editorAdditions, Operation.Proper, Operation.Brings, hid, heditor, honce, hnone]
  obtain ⟨hcount, hstore, -, -⟩ :=
    addons_attached_anew Reader.proper_any Reader.extendsOnce_any hops rfl
  refine ⟨Reader.proper_any, Reader.extendsOnce_any, ?_, ?_⟩
  · exact hcount.trans (by decide +kernel)
  · rw [editorCatalog, hstore]
    decide +kernel

/-- Not all that is not attached stays: the editor loses its tokens. -/
theorem attaching_voids_tokens :
    editorCatalog.records.map (·.tokens.isSome) = [true, true, true] ∧
    editorCatalog.attachAddons.2.records.map (·.tokens.isSome) = [false, true, true] := by
  decide +kernel

end Store

end SoftwareCatalog
