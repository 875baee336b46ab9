import SoftwareCatalog.Proofs.Store.Reordering
import SoftwareCatalog.Proofs.Store.Sparse

namespace SoftwareCatalog

/-- What a record holds under its key. -/
def Record.content (r : Record) : Component × Option Search.TokenCache := (r.component, r.tokens)

namespace Store

open Component (bare)
open Search (Hit)

variable {s t u : Store} {b c d : Component} {bs cs ds : List Component}

theorem size_eq (s : Store) : s.size = s.entries.length :=
  (List.length_map _).symm

theorem Edits.size_le (h : Edits s t) : t.size ≤ s.size := by
  induction h with
  | refl => exact Nat.le_refl _
  | @tail t u _ k ih =>
    refine Nat.le_trans ?_ ih
    rw [size_eq, size_eq]
    cases k with
    | same k => rw [k.entries]
    | altered _ _ k => rw [k.entries, List.length_map]
    | removed _ _ _ k =>
      rw [k.entries]
      exact List.length_filter_le _ _

theorem size_insert (s : Store) (c : Component) : (s.insert c).size = s.size + 1 := by
  rw [size_eq, (inserted_insert s c).entries, List.length_append, ← size_eq]
  rfl

/-- A catalog grows only by a component that gets a record of its own. -/
theorem Encounter.size_le_or_inserted (h : Encounter s c t) : t.size ≤ s.size ∨ t = s.insert c := by
  cases h with
  | inserted _ => exact .inr rfl
  | @merged key old hmeets =>
    left
    rw [size_eq, (altered_update hmeets.found _).entries, List.length_map]
    exact Nat.le_of_eq (size_eq s).symm
  | @replaced key old hmeets =>
    left
    have hrest := removed_modify_removeKey (find?_replaced hmeets.found (s.verdict old c).stored)
      fun _ => rfl
    have hgone : (s.entries.filter (·.1 ≠ key)).length < s.entries.length :=
      List.length_filter_lt_length_iff_exists.2 ⟨_, mem_entries_of_find? hmeets.found, by simp⟩
    rw [size_insert, size_eq, size_eq, hrest.entries]
    exact hgone

/-- A component as it comes in: patches that wait for it are given to it first. -/
def entering (s : Store) (c : Component) : Component := s.patched (c.id.getD "") c

theorem addons_entering (s : Store) (c : Component) : (s.entering c).addons = c.addons :=
  addons_foldl_applyPatch _ _

theorem size_add_le_or_inserted (s : Store) (c : Component) : (s.add c).size ≤ s.size ∨
    c.mergeKind.isPatch = false ∧
      ∃ pool, s.add c = ({ s with pool } : Store).insert (s.entering c) := by
  cases hid : c.id with
  | none =>
    rw [add_of_no_id hid]
    exact .inl (Nat.le_refl _)
  | some id =>
    cases hpatch : c.mergeKind.isPatch with
    | true => exact .inl (Edits.size_le (edits_add_patch hpatch))
    | false =>
      obtain ⟨pool, hencounter⟩ := s.encounter_add hid hpatch
      have hentering : s.entering c = s.patched id c := by
        unfold entering
        rw [hid, Option.getD_some]
      rw [hentering]
      exact hencounter.size_le_or_inserted.imp_right fun hadd => ⟨rfl, pool, hadd⟩

theorem size_add_le (s : Store) (c : Component) : (s.add c).size ≤ s.size + 1 := by
  rcases s.size_add_le_or_inserted c with hle | ⟨-, pool, hadd⟩
  · exact Nat.le_succ_of_le hle
  · rw [hadd, size_insert]
    exact Nat.le_refl _

theorem size_adds_le (s : Store) (cs : List Component) :
    (cs.foldl add s).size ≤ s.size + cs.length := by
  induction cs generalizing s with
  | nil => exact Nat.le_refl _
  | cons c cs ih =>
    have hfirst := s.size_add_le c
    have hrest := ih (s.add c)
    rw [List.foldl_cons, List.length_cons]
    omega

/-- `t` is `s` with components that came in one after the other, each with a record of its own. -/
structure Entered (bs : List Component) (s t : Store) : Prop where
  components : t.components.map bare = s.components.map bare ++ bs.map bare
  led : ∀ u, (∃ b ∈ bs, b.uniqueId = u ∧ t.led? u = some b.bare) ∨
    (∀ b ∈ bs, b.uniqueId ≠ u) ∧ t.led? u = s.led? u
  unlinked : (∀ b ∈ bs, b.kind ≠ .addon) →
    t.records.map Record.content = s.records.map Record.content ++
      bs.map fun b => (b.untokened, b.tokens)

theorem Entered.refl (s : Store) : Entered [] s s where
  components := (List.append_nil _).symm
  led u := .inr ⟨by simp, rfl⟩
  unlinked _ := (List.append_nil _).symm

theorem Entered.trans (h : Entered bs s t) (k : Entered ds t u) : Entered (bs ++ ds) s u where
  components := by rw [k.components, h.components, List.map_append, List.append_assoc]
  led v := by
    rcases k.led v with ⟨b, hb, hled⟩ | ⟨hothers, hsame⟩
    · exact .inl ⟨b, List.mem_append_right bs hb, hled⟩
    · rw [hsame]
      rcases h.led v with ⟨b, hb, hled⟩ | ⟨hbefore, hled⟩
      · exact .inl ⟨b, List.mem_append_left ds hb, hled⟩
      · exact .inr ⟨List.forall_mem_append.2 ⟨hbefore, hothers⟩, hled⟩
  unlinked hkinds := by
    obtain ⟨hbs, hds⟩ := List.forall_mem_append.1 hkinds
    rw [k.unlinked hds, h.unlinked hbs, List.map_append, List.append_assoc]

/-- What is attached has something to rest on still. -/
theorem Entered.supported (k : Entered bs s t) (h : s.Supported)
    (hkinds : ∀ b ∈ bs, b.kind ≠ .addon) (hbare : ∀ b ∈ bs, b.addons = []) : t.Supported := by
  have hcomponents : t.components = s.components ++ bs.map Component.untokened := by
    have hfirst := congrArg (List.map Prod.fst) (k.unlinked hkinds)
    simpa [Store.components, Function.comp_def, Record.content] using hfirst
  unfold Supported
  rw [hcomponents]
  intro c hc u hu
  rcases List.mem_append.1 hc with hc | hc
  · obtain ⟨a, ha, hsupports⟩ := h c hc u hu
    exact ⟨a, List.mem_append_left _ ha, hsupports⟩
  · obtain ⟨b, hb, rfl⟩ := List.mem_map.1 hc
    rw [show b.untokened.addons = [] from hbare b hb] at hu
    cases hu

/-- Where unique IDs led before, they lead on, but for the one of what comes in. -/
theorem UniquelyIndexed.led?_inserted (h : s.UniquelyIndexed) (k : Inserted c s t) (u : String) :
    t.led? u = if u = c.uniqueId then some c.bare else s.led? u := by
  have hfind (key : Nat) : (t.find? key).map bare =
      ((s.find? key).map bare).or (if key = s.nextKey then some c.bare else none) := by
    rw [find?_bare, find?_bare, k.entries, List.find?_append, Option.map_or]
    by_cases hkey : key = s.nextKey
    · simp [hkey]
    · simp [hkey, Ne.symm hkey]
  have hnew : (s.find? s.nextKey).map bare = none := by
    rw [Option.map_eq_none_iff, find?_eq_none_iff]
    exact fun e he => Nat.ne_of_lt (h.wellIndexed.keyed.fresh e he)
  unfold led?
  rw [k.keyByUniqueId, Option.map_bind, Option.map_bind]
  split
  · rw [Option.bind_some, Function.comp_apply, hfind, hnew, if_pos rfl, Option.none_or]
  · cases hled : s.keyByUniqueId.get? u with
    | none => rfl
    | some key =>
      have hold : key ≠ s.nextKey := Nat.ne_of_lt (h.fresh u key hled)
      rw [Option.bind_some, Option.bind_some, Function.comp_apply, hfind, if_neg hold,
        Option.or_none]
      rfl

theorem records_insert_of_not_addon (s : Store) (h : c.kind ≠ .addon) :
    (s.insert c).records = s.records ++ [.ofComponent s.nextKey c] := by
  rw [insert_eq]
  unfold linked
  rw [if_neg h]
  rfl

theorem UniquelyIndexed.entered_insert (h : s.UniquelyIndexed) (c : Component) (pool : Pool) :
    Entered [c] s (({ s with pool } : Store).insert c) := by
  have k : Inserted c s (({ s with pool } : Store).insert c) := (inserted_insert _ c).of_pool
  refine ⟨?_, fun u => ?_, fun hkinds => ?_⟩
  · have hentries := congrArg (List.map Prod.snd) k.entries
    simpa [entries, components, Function.comp_def] using hentries
  · rw [h.led?_inserted k]
    by_cases hu : u = c.uniqueId
    · exact .inl ⟨c, List.mem_singleton_self c, hu.symm, if_pos hu⟩
    · exact .inr ⟨by simpa using Ne.symm hu, if_neg hu⟩
  · rw [records_insert_of_not_addon _ (hkinds c (List.mem_singleton_self c)), List.map_append]
    rfl

/-- No patch comes in where a catalog grows, so that the same ones wait for what comes later. -/
theorem entering_add (s : Store) (h : c.mergeKind.isPatch = false) :
    (s.add c).entering = s.entering := by
  funext d
  unfold entering patched patchesFor
  rw [s.patches_add_of_not h]

theorem UniquelyIndexed.entered_adds (h : s.UniquelyIndexed) (hproper : ∀ c ∈ cs, c.Proper)
    (hgrows : (cs.foldl Store.add s).size = s.size + cs.length) :
    Entered (cs.map s.entering) s (cs.foldl Store.add s) := by
  induction cs generalizing s with
  | nil => exact .refl s
  | cons c cs ih =>
    obtain ⟨hc, hcs⟩ := List.forall_mem_cons.1 hproper
    rw [List.foldl_cons, List.length_cons] at hgrows
    have hrest := (s.add c).size_adds_le cs
    have hfirst := s.size_add_le c
    have hadds : (cs.foldl Store.add (s.add c)).size = (s.add c).size + cs.length := by omega
    rcases s.size_add_le_or_inserted c with hle | ⟨hpatch, pool, hadd⟩
    · omega
    · have hentered := h.entered_insert (s.entering c) pool
      rw [← hadd] at hentered
      have hlater := ih (h.add hc) hcs hadds
      rw [s.entering_add hpatch] at hlater
      exact hentered.trans hlater

/-- The same components in two orders. Each gets a record of its own in both, and no addon comes to
share its unique ID with another record. -/
structure Interchangeable (s : Store) (cs ds : List Component) : Prop where
  perm : cs.Perm ds
  proper : ∀ c ∈ cs, c.Proper
  grows : (cs.foldl add s).size = s.size + cs.length
  regrows : (ds.foldl add s).size = s.size + ds.length
  distinct : (cs.foldl add s).AddonsDistinct

theorem mem_entries_of_mem_components (h : c ∈ s.components) :
    ∃ key, (key, c.bare) ∈ s.entries := by
  obtain ⟨r, hr, rfl⟩ := List.mem_map.1 h
  exact ⟨r.key, List.mem_map_of_mem hr⟩

/-- What has the unique ID of an addon is the addon. -/
theorem AddonsDistinct.bare_eq (h : s.AddonsDistinct) (hkeyed : s.Keyed) (hc : c ∈ s.components)
    (hd : d.bare ∈ s.components.map bare) (hkind : c.kind = .addon)
    (huid : d.uniqueId = c.uniqueId) : d.bare = c.bare := by
  obtain ⟨e, he, hbare⟩ := List.mem_map.1 hd
  obtain ⟨key, hkey⟩ := mem_entries_of_mem_components hc
  obtain ⟨other, hother⟩ := mem_entries_of_mem_components he
  rw [hbare] at hother
  have hsame := h _ hkey _ hother hkind huid
  exact congrArg Prod.snd (hkeyed.eq_of_key hother hkey hsame)

theorem Interchangeable.entered (k : Interchangeable s cs ds) (h : s.UniquelyIndexed) :
    Entered (cs.map s.entering) s (cs.foldl add s) ∧
      Entered (ds.map s.entering) s (ds.foldl add s) :=
  ⟨h.entered_adds k.proper k.grows,
    h.entered_adds (fun c hc => k.proper c (k.perm.mem_iff.2 hc)) k.regrows⟩

theorem Interchangeable.sameStock (k : Interchangeable s cs ds) (h : s.UniquelyIndexed) :
    SameStock (cs.foldl add s) (ds.foldl add s) := by
  obtain ⟨hcs, hds⟩ := k.entered h
  have hkeyed := (h.adds k.proper).wellIndexed.keyed
  have hmem : ∀ b, b ∈ cs.map s.entering ↔ b ∈ ds.map s.entering :=
    fun b => (k.perm.map s.entering).mem_iff
  refine ⟨?_, ?_, fun a ha hkind => ?_⟩
  · rw [s.context_adds ds, s.context_adds cs]
  · rw [hcs.components, hds.components]
    exact (((k.perm.map s.entering).map bare).append_left _).symm
  · have hsole {b : Component} (hb : b ∈ cs.map s.entering) (huid : b.uniqueId = a.uniqueId) :
        b.bare = a.bare := by
      refine k.distinct.bare_eq hkeyed ha ?_ hkind huid
      rw [hcs.components]
      exact List.mem_append_right _ (List.mem_map_of_mem hb)
    rcases hcs.led a.uniqueId with ⟨b, hb, huid, hled⟩ | ⟨hothers, hled⟩
    · rcases hds.led a.uniqueId with ⟨d, hd, hduid, hdled⟩ | ⟨hothers, -⟩
      · rw [hled, hdled, hsole hb huid, hsole ((hmem d).2 hd) hduid]
      · exact absurd huid (hothers b ((hmem b).1 hb))
    · rcases hds.led a.uniqueId with ⟨d, hd, hduid, -⟩ | ⟨-, hdled⟩
      · exact absurd hduid (hothers d ((hmem d).2 hd))
      · rw [hled, hdled]

/-- Components that no addon is among, and that bring no attachments, are found at once, whatever
tokens they bring. -/
theorem Interchangeable.search_eq (k : Interchangeable s cs ds) (h : s.UniquelyIndexed)
    (hsupported : s.Supported) (hplain : ∀ c ∈ cs, (s.entering c).kind ≠ .addon ∧ c.addons = [])
    (query : String) : ((ds.foldl add s).search query).1 = ((cs.foldl add s).search query).1 := by
  obtain ⟨hcs, hds⟩ := k.entered h
  have hstock := k.sameStock h
  have hentering := k.perm.map s.entering
  have hkinds : ∀ b ∈ cs.map s.entering, b.kind ≠ .addon :=
    List.forall_mem_map.2 fun c hc => (hplain c hc).1
  have hbare : ∀ b ∈ cs.map s.entering, b.addons = [] :=
    List.forall_mem_map.2 fun c hc => (s.addons_entering c).trans (hplain c hc).2
  have hperm : ((ds.foldl add s).records.map Record.content).Perm
      ((cs.foldl add s).records.map Record.content) := by
    rw [hcs.unlinked hkinds, hds.unlinked fun b hb => hkinds b (hentering.mem_iff.2 hb)]
    exact ((hentering.map _).append_left _).symm
  refine search_eq_of_perm hperm fun q _ r hr hsame => ?_
  obtain ⟨hcomponent, htokens⟩ := Prod.mk.inj hsame
  have hled : ∀ u ∈ r.component.addons,
      (ds.foldl add s).led? u = (cs.foldl add s).led? u := by
    intro u hu
    obtain ⟨a, ha, hkind, rfl, -⟩ :=
      hcs.supported hsupported hkinds hbare r.component (List.mem_map_of_mem hr) u hu
    exact hstock.led a ha hkind
  refine hitOf?_congr hstock.context ?_ (congrArg Component.uniqueId hcomponent)
  unfold tokensOf
  rw [htokens, hstock.context, hcomponent,
    build_addonsOf_congr rfl (fun _ => Iff.rfl) hled]

/-- Hits have one ranking: the one order of them in which the score falls, and unique IDs rise where
scores are equal. A search ranks the hits of all records. So searches in two catalogs that hold the
same components in whatever order find the same, where both hold the same attachments and no stale
tokens. They do so whatever the history of these catalogs was, once addons are attached, where the
unique ID of each addon leads to the same component in both. Components that get a record of their
own can be added in any order: after addons are attached the same is found, if they bring no stale
tokens along, and if no addons come in and no attachments, at once. -/
theorem found_in_any_order :
    (∀ hits ranked : List Hit, ranked = Hit.rank hits ↔
      ranked.Perm hits ∧ ranked.Pairwise Hit.Precedes) ∧
    (∀ hits others : List Hit, Hit.rank hits = Hit.rank others ↔ hits.Perm others) ∧
    (∀ (s : Store) (query : String),
      (s.search query).1 = Hit.rank (s.records.filterMap (s.hitOf? query))) ∧
    (∀ s t : Store, Reordered s t → s.Fresh → t.Fresh → ∀ query,
      (t.search query).1 = (s.search query).1) ∧
    (∀ s t : Store, SameStock s t → s.Steady → t.Steady → ∀ query,
      (t.attachAddons.2.search query).1 = (s.attachAddons.2.search query).1) ∧
    ∀ (s : Store) (cs ds : List Component), Interchangeable s cs ds → s.Steady → ∀ query,
      ((∀ c ∈ cs, c.FreshIn s.context) →
        ((ds.foldl add s).attachAddons.2.search query).1 =
          ((cs.foldl add s).attachAddons.2.search query).1) ∧
      (s.Supported → (∀ c ∈ cs, (s.entering c).kind ≠ .addon ∧ c.addons = []) →
        ((ds.foldl add s).search query).1 = ((cs.foldl add s).search query).1) := by
  refine ⟨fun _ _ => Hit.eq_rank_iff, fun _ _ => Hit.rank_eq_rank_iff, search_eq,
    fun s t k hs ht => k.search_eq hs ht, fun s t k hs ht => k.search_attachAddons_eq hs ht, ?_⟩
  intro s cs ds k h query
  have hindexed := h.uniquelyIndexed
  have hproper : ∀ d ∈ ds, d.Proper := fun d hd => k.proper d (k.perm.mem_iff.2 hd)
  refine ⟨fun hfresh => ?_, fun hsupported hplain => k.search_eq hindexed hsupported hplain query⟩
  have hfresh' : ∀ d ∈ ds, d.FreshIn s.context := fun d hd => hfresh d (k.perm.mem_iff.2 hd)
  exact (k.sameStock hindexed).search_attachAddons_eq (h.adds k.proper hfresh)
    (h.adds hproper hfresh') query

/-- Another plugin of the tool. -/
def shapesPlugin : Component := { plugin with id := some "org.example.Shapes" }

/-- What no plugin extends. -/
def viewer : Component := (Component.ofId "org.example.Viewer").addKeyword (some "en") "negatives"

/-- A catalog after some components were added. -/
def stocked (cs : List Component) : Store := cs.foldl add (new unstemmed Reader.any)

/-- The viewer was there for a while. -/
def viewed : List Operation :=
  [.add negativesPlugin, .add viewer, .add extensibleTool, .buildTokens, .remove viewer]

/-- The viewer as a catalog gives it out once its tokens are built. -/
def viewerCopies : List Component := (stocked [viewer]).buildTokens.records.map Record.copy

theorem plugins_found_in_any_order :
    [⟨8, "c"⟩, ⟨4, "a"⟩, ⟨4, "b"⟩] = Hit.rank [⟨4, "b"⟩, ⟨8, "c"⟩, ⟨4, "a"⟩] ∧
    Hit.rank [⟨4, "b"⟩, ⟨8, "c"⟩] = Hit.rank [⟨8, "c"⟩, ⟨4, "b"⟩] ∧
    ((stocked [extensibleTool, shapesPlugin, negativesPlugin]).search "negatives").1 =
      ((stocked [extensibleTool, negativesPlugin, shapesPlugin]).buildTokens.search
        "negatives").1 ∧
    (((new unstemmed Reader.any).run viewed).attachAddons.2.search "negatives").1 =
      ((stocked [extensibleTool, negativesPlugin]).attachAddons.2.search "negatives").1 ∧
    ((stocked [negativesPlugin, extensibleTool]).attachAddons.2.search "negatives").1 =
      ((stocked [extensibleTool, negativesPlugin]).attachAddons.2.search "negatives").1 ∧
    viewerCopies.map (·.tokens.isSome) = [true] ∧
    ((stocked (viewerCopies ++ [extensibleTool])).attachAddons.2.search "negatives").1 =
      ((stocked (extensibleTool :: viewerCopies)).attachAddons.2.search "negatives").1 ∧
    ((stocked [viewer, extensibleTool]).search "negatives").1 =
      ((stocked [extensibleTool, viewer]).search "negatives").1 ∧
    ⟨32, "*/*/*/*/org.example.Tool/*"⟩ ∈
      ((stocked [extensibleTool, negativesPlugin]).attachAddons.2.search "negatives").1 := by
  obtain ⟨hrank, hperm, -, hreordered, hstock, hadded⟩ := found_in_any_order
  have htool : extensibleTool.Proper := by decide +kernel
  have hplugin : negativesPlugin.Proper := by decide +kernel
  have hviewer : viewer.Proper := by decide +kernel
  have hfresh (ctx : Search.Context) : extensibleTool.FreshIn ctx ∧ negativesPlugin.FreshIn ctx ∧
      viewer.FreshIn ctx :=
    ⟨Component.freshIn_of_none rfl, Component.freshIn_of_none rfl, Component.freshIn_of_none rfl⟩
  have hnew : (new unstemmed Reader.any).Steady :=
    steady_run unstemmed Reader.proper_any [] (by simp) (by simp [runAdditions]) (by simp)
  have htools : (stocked [extensibleTool, negativesPlugin]).Steady :=
    (hnew.add htool (hfresh _).1).add hplugin (hfresh _).2.1
  have hviewed : ((new unstemmed Reader.any).run viewed).Steady := by
    refine steady_run unstemmed Reader.proper_any viewed ?_ ?_ (by simp [viewed])
    · simp [viewed, Operation.Proper, htool, hplugin, hviewer]
    · simp [viewed, runAdditions, operationAdditions, hfresh]
  have hplugins : Interchangeable (new unstemmed Reader.any) [extensibleTool, negativesPlugin]
      [negativesPlugin, extensibleTool] := by
    constructor <;> decide +kernel
  have hviewers : Interchangeable (new unstemmed Reader.any) [extensibleTool, viewer]
      [viewer, extensibleTool] := by
    constructor <;> decide +kernel
  have hcopies : Interchangeable (new unstemmed Reader.any) (extensibleTool :: viewerCopies)
      (viewerCopies ++ [extensibleTool]) := by
    constructor <;> decide +kernel
  have hcontext (cs : List Component) :
      (stocked cs).context = (new unstemmed Reader.any).context := context_adds _ cs
  have hviewing : ((new unstemmed Reader.any).run viewed).context =
      (new unstemmed Reader.any).context := by rfl
  have hcopied : ∀ c ∈ viewerCopies, c.FreshIn (new unstemmed Reader.any).context := by
    intro c hc
    obtain ⟨r, hr, rfl⟩ := List.mem_map.1 hc
    have hbuilt := (hnew.add hviewer (hfresh _).2.2).freshAlone.buildTokens
    have hcopy := hbuilt.freshIn_copy hr
    exact hcontext [viewer] ▸ hcopy
  refine ⟨(hrank _ _).2 (by decide +kernel), (hperm _ _).2 (by decide +kernel), ?_, ?_, ?_,
    by decide +kernel, ?_, ?_, ?_⟩
  · refine hreordered _ _ ⟨?_, ?_, ?_⟩ (by decide +kernel) (by decide +kernel) "negatives"
    · exact (hcontext _).trans (hcontext [extensibleTool, negativesPlugin, shapesPlugin]).symm
    · decide +kernel
    · decide +kernel
  · refine hstock _ _ ⟨hviewing.trans (hcontext _).symm, ?_, ?_⟩ htools hviewed "negatives"
    · decide +kernel
    · decide +kernel
  · refine (hadded _ _ _ hplugins hnew "negatives").1 ?_
    simp [hfresh]
  · refine (hadded _ _ _ hcopies hnew "negatives").1 ?_
    exact List.forall_mem_cons.2 ⟨(hfresh _).1, hcopied⟩
  · exact (hadded _ _ _ hviewers hnew "negatives").2 (by decide +kernel) (by decide +kernel)
  · rw [mem_search]
    decide +kernel

/-- The plugin for an architecture, with a keyword. -/
def pluginFor (arch word : String) : Component :=
  ({ plugin with architectures := [arch] } : Component).addKeyword (some "en") word

/-- The tool under a name. -/
def toolNamed (name : String) : Component :=
  { extensibleTool with names := TextMap.empty.insert "en" name }

/-- A catalog in which unique IDs keep components apart, after a tool and two plugins were added. -/
def pluginsApart (first second : Component) : Store :=
  [extensibleTool, first, second].foldl add
    (new ⟨⟨true, false, false⟩, {}, ⟨["en"], 4, false, 3⟩⟩ Reader.any)

/-- A catalog in which words come to be stemmed between two additions. -/
def restemmed (first second : Component) : Store :=
  (new unstemmed Reader.any).run
    [.add first, .buildTokens, .withStemmer Stem.snowball, .add second]

/-- The order of additions matters to what they leave: an addon is attached only to what is there,
of addons with one unique ID the last one is found by it, of names for one software the first one
stays, and tokens are as the stemming was when they were built. Copies bring along tokens that were
built elsewhere. -/
theorem addition_order_matters :
    (⟨32, "*/*/*/*/org.example.Tool/*"⟩ ∈
      ((stocked [extensibleTool, negativesPlugin]).search "negatives").1 ∧
    ⟨32, "*/*/*/*/org.example.Tool/*"⟩ ∉
      ((stocked [negativesPlugin, extensibleTool]).search "negatives").1) ∧
    (⟨32, "*/*/*/*/org.example.Tool/*"⟩ ∈ ((pluginsApart (pluginFor "x86_64" "slides")
      (pluginFor "aarch64" "negatives")).attachAddons.2.search "negatives").1 ∧
    ⟨32, "*/*/*/*/org.example.Tool/*"⟩ ∉ ((pluginsApart (pluginFor "aarch64" "negatives")
      (pluginFor "x86_64" "slides")).attachAddons.2.search "negatives").1) ∧
    (⟨256, "*/*/*/*/org.example.Tool/*"⟩ ∈ ((stocked [toolNamed "Negatives",
      toolNamed "Slides"]).attachAddons.2.search "negatives").1 ∧
    ⟨256, "*/*/*/*/org.example.Tool/*"⟩ ∉ ((stocked [toolNamed "Slides",
      toolNamed "Negatives"]).attachAddons.2.search "negatives").1) ∧
    (⟨32, "*/*/*/*/org.example.Viewer/*"⟩ ∈
      ((restemmed (toolNamed "Negatives") viewer).search "negatives").1 ∧
    ⟨32, "*/*/*/*/org.example.Viewer/*"⟩ ∉
      ((restemmed viewer (toolNamed "Negatives")).search "negatives").1) ∧
    searchedViewers.map Component.untokened = [germanViewer] ∧
    ⟨32, "*/*/*/*/org.example.Viewer/*"⟩ ∈
      ((stocked searchedViewers).attachAddons.2.search "negative").1 ∧
    ⟨32, "*/*/*/*/org.example.Viewer/*"⟩ ∉
      ((stocked [germanViewer]).attachAddons.2.search "negative").1 := by
  simp only [mem_search]
  decide +kernel

end Store

end SoftwareCatalog
