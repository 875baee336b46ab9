import SoftwareCatalog.Proofs.Store.AddonSupport
import SoftwareCatalog.Proofs.Store.UniqueIdQuery

namespace SoftwareCatalog.Store

variable {s t : Store} {key : Nat} {c old patch : Component} {keys : List Nat} {u : String}

/-- What a patch does to what is attached to a record, and to what this rests on. -/
theorem supports_given (hs : s.WellIndexed) : ∀ r ∈ (s.given patch keys).records,
    ∃ q ∈ s.records, r.component.id = q.component.id ∧ r.key = q.key ∧
      ((∀ d : Component, ¬ (d.subsume (patchFlags patch) patch).Extends q.component) →
        r.component.addons ⊆ q.component.addons) ∧
      ((∀ d : Component, d.Extends q.component →
          (d.subsume (patchFlags patch) patch).Extends q.component) →
        (∀ u ∈ q.component.addons, s.Supports q.component u) →
        ∀ u ∈ r.component.addons, (s.given patch keys).Supports r.component u) := by
  induction keys generalizing s with
  | nil => exact fun r hr => ⟨r, hr, rfl, rfl, fun _ => List.Subset.refl _, fun _ h => h⟩
  | cons key keys ih =>
    cases hold : s.find? key with
    | none =>
      rw [given_cons_of_none hold]
      exact ih hs
    | some old =>
      have hindexed : (s.update key fun c => c.subsume (patchFlags patch) patch).WellIndexed :=
        hs.edits (edits_update s key fun _ => rfl)
      intro r hr
      obtain ⟨p, hp, hid, hkey, hsub, hsupports⟩ := ih hindexed r hr
      obtain ⟨q, hq, hid', hkey', hsub', hsupports'⟩ :=
        supports_update hs hold (f := fun c => c.subsume (patchFlags patch) patch) rfl rfl p hp
      have hkind (h : old.kind = .addon) : (old.subsume (patchFlags patch) patch).kind = .addon :=
        Component.kind_subsume_of_addon (fun _ => keepsExisting_patchFlags patch) h
      refine ⟨q, hq, hid.trans hid', hkey.trans hkey', ?_, ?_⟩
      · intro hno
        have hfirst := hsub' (hno old)
        have hrest := hsub fun d hd => hno d ((Component.extends_congr hid').1 hd)
        exact List.Subset.trans hrest hfirst
      · intro hextends h
        refine hsupports ?_ (hsupports' (fun hk hd => ⟨hkind hk, hextends old hd⟩) h)
        intro d hd
        rw [Component.extends_congr hid'] at hd ⊢
        exact hextends d hd

theorem retains_update (hs : s.WellIndexed) (hold : s.find? key = some old)
    {f : Component → Component} (hid : (f old).id = old.id)
    (haddons : (f old).addons = old.addons) :
    ∀ q ∈ s.records, ¬ (f old).Extends q.component → ∃ r ∈ (s.update key f).records,
      r.component.id = q.component.id ∧ q.component.addons ⊆ r.component.addons := by
  intro q hq hno
  have hnew := find?_replaced hold (f old)
  have hmodified : (if q.key = key then q.replace (f old) else q) ∈
      (s.modify key fun r => r.replace (f old)).records := List.mem_map_of_mem hq
  obtain ⟨r, hr, hretains⟩ := retains_refresh hnew old.uniqueId _ hmodified
  have hkeys : (s.modify key fun r => r.replace (f old)).keysOf = s.keysOf := rfl
  rw [hkeys] at hretains
  have hsame := hs.keyed.of_changed hold hq (p := fun r => r.component.id = q.component.id ∧
    r.component.addons = q.component.addons ∧ r.key = q.key) (f := fun r => r.replace (f old))
    ⟨rfl, rfl, rfl⟩ fun hqold => ⟨hqold ▸ hid, hqold ▸ haddons, rfl⟩
  rw [update_eq hold]
  refine ⟨r, hr, hretains.id.trans hsame.1, ?_⟩
  intro u hu
  refine hretains.addons u (hsame.2.1 ▸ hu) ?_
  intro hgone
  rw [hsame.2.2] at hgone
  exact hno ((hs.mem_extended_iff hq).1 hgone.2.2)

theorem retains_given (hs : s.WellIndexed) : ∀ q ∈ s.records,
    (∀ d : Component, ¬ (d.subsume (patchFlags patch) patch).Extends q.component) →
    ∃ r ∈ (s.given patch keys).records,
      r.component.id = q.component.id ∧ q.component.addons ⊆ r.component.addons := by
  induction keys generalizing s with
  | nil => exact fun q hq _ => ⟨q, hq, rfl, List.Subset.refl _⟩
  | cons key keys ih =>
    cases hold : s.find? key with
    | none =>
      rw [given_cons_of_none hold]
      exact ih hs
    | some old =>
      have hindexed : (s.update key fun c => c.subsume (patchFlags patch) patch).WellIndexed :=
        hs.edits (edits_update s key fun _ => rfl)
      intro q hq hno
      obtain ⟨p, hp, hid, hsub⟩ :=
        retains_update hs hold (f := fun c => c.subsume (patchFlags patch) patch) rfl rfl q hq
          (hno old)
      obtain ⟨r, hr, hid', hsub'⟩ := ih hindexed p hp fun d hd =>
        hno d ((Component.extends_congr hid).1 hd)
      exact ⟨r, hr, hid'.trans hid, List.Subset.trans hsub hsub'⟩

/-- Attachments rest on something after a patch, unless it redirects all the addons that support an
attachment of a record to other ones. -/
theorem supported_given_iff (hs : s.WellIndexed) (h : s.Supported) (hnodup : keys.Nodup) :
    (s.given patch keys).Supported ↔ ∀ q ∈ s.records, ∀ u ∈ q.component.addons,
      Redirects patch → ¬ patch.Extends q.component →
      ∃ e ∈ s.entries, e.2.kind = .addon ∧ e.2.uniqueId = u ∧ e.2.Extends q.component ∧
        e.1 ∉ keys := by
  have hmem {e : Nat × Component} : e ∈ (s.given patch keys).entries ↔
      (e.1 ∉ keys ∧ e ∈ s.entries) ∨
      (e.1 ∈ keys ∧ ∃ b, (e.1, b) ∈ s.entries ∧ e.2 = b.subsume (patchFlags patch) patch) :=
    hs.mem_given hnodup
  have hextends (hredirects : Redirects patch) {q : Record} (hno : ¬ patch.Extends q.component)
      (d : Component) : ¬ (d.subsume (patchFlags patch) patch).Extends q.component :=
    fun hd => hno ((extends_redirected_iff hredirects d _).1 hd)
  rw [supported_iff] at h ⊢
  constructor
  · intro hgiven q hq u hu hredirects hno
    obtain ⟨r, hr, hid, hsub⟩ := retains_given hs q hq (hextends hredirects hno)
    obtain ⟨e, he, hkind, huid, he'⟩ := (hgiven r hr u (hsub hu)).congr hid.symm
    rcases hmem.1 he with ⟨hkey, hin⟩ | ⟨-, b, -, hb⟩
    · exact ⟨e, hin, hkind, huid, he', hkey⟩
    · rw [hb] at he'
      exact absurd he' (hextends hredirects hno b)
  · intro hall r hr u hu
    obtain ⟨q, hq, hid, -, hsub, hsupports⟩ := supports_given hs r hr
    by_cases hout : Redirects patch ∧ ¬ patch.Extends q.component
    · -- nothing that gets the patch extends `q` any longer, so all that is attached was so before
      obtain ⟨hredirects, hno⟩ := hout
      have huq := hsub (hextends hredirects hno) hu
      obtain ⟨e, he, hkind, huid, he', hkey⟩ := hall q hq u huq hredirects hno
      have hstays : (s.given patch keys).Supports q.component u :=
        ⟨e, hmem.2 (.inl ⟨hkey, he⟩), hkind, huid, he'⟩
      exact hstays.congr hid
    · refine hsupports ?_ (h q hq) u hu
      intro d hd
      by_cases hredirects : Redirects patch
      · have hin : patch.Extends q.component := by
          by_contra hno
          exact hout ⟨hredirects, hno⟩
        exact (extends_redirected_iff hredirects d _).2 hin
      · exact extends_patched hredirects hd

/-- What comes in needs support for the attachments that it brings along, and what is there already
needs it again. -/
theorem supported_insert_iff (hindexed : (s.insert c).WellIndexed) : (s.insert c).Supported ↔
    (∀ u ∈ c.addons, (s.insert c).Supports c u) ∧
    ∀ r ∈ s.records, ∀ u ∈ r.component.addons, (s.insert c).Supports r.component u := by
  rw [supported_iff]
  constructor
  · intro hall
    have hkept (q : Record) (hq : q ∈ s.records ++ [.ofComponent s.nextKey c]) :
        ∀ u ∈ q.component.addons, (s.insert c).Supports q.component u := by
      intro u hu
      obtain ⟨r, hr, hretains⟩ := retains_insert s c q hq
      exact (hall r hr u (hretains.addons u hu id)).congr hretains.id.symm
    exact ⟨hkept (.ofComponent s.nextKey c) (by simp), fun r hr => hkept r (List.mem_append_left _ hr)⟩
  · intro hboth r hr u hu
    obtain ⟨q, hq, hid, hcases⟩ := supports_insert hindexed r hr
    rcases hcases u hu with hin | hsupports
    · rcases List.mem_append.1 hq with hq | hq
      · exact (hboth.2 q hq u hin).congr hid
      · obtain rfl := List.mem_singleton.1 hq
        exact (hboth.1 u hin).congr hid
    · exact hsupports.congr hid

/-- What is left when a record gives way that was changed in place before keeps its support, but for
what is attached under a unique ID that an addon lost by the change. -/
theorem supports_removed_iff (hs : s.WellIndexed) (h : s.Supported)
    (hold : s.find? key = some old) {new : Component} (hid : new.id = old.id)
    (hupholds : old.Upholds new) (hmore : ∀ d u,
      ((s.modify key fun e => e.replace new).removeKey key).Supports d u → t.Supports d u) :
    (∀ r ∈ ((s.modify key fun e => e.replace new).removeKey key).records,
      ∀ u ∈ r.component.addons, t.Supports r.component u) ↔
    (old.kind = .addon → new.uniqueId ≠ old.uniqueId →
      ∀ q ∈ s.records, q.key ≠ key → old.uniqueId ∈ q.component.addons →
        t.Supports q.component old.uniqueId) := by
  have hnew := find?_replaced hold new
  constructor
  · intro hall _ huid q hq hne hu
    have hmodified : q ∈ (s.modify key fun e => e.replace new).records :=
      List.mem_map.2 ⟨q, hq, if_neg hne⟩
    obtain ⟨r, hr, hretains⟩ := retains_removeKey hnew q hmodified hne
    have hin := hretains.addons _ hu fun hgone => huid hgone.2.symm
    exact (hall r hr _ hin).congr hretains.id.symm
  · intro hlost r hr u hu
    rcases supports_removed hs hold hnew (fun _ => rfl) hid hupholds h hr hu with
      hsupports | ⟨hkind, rfl, huid, q, hq, hne, hqid, hqu⟩
    · exact hmore _ _ hsupports
    · exact (hlost hkind huid q hq hne hqu).congr hqid

/-- Attachments rest on something after an encounter, unless what comes in brings attachments along
that nothing supports, or an addon that gives way was attached under a unique ID that it lost just
before. -/
theorem supported_encounter_iff (hs : s.WellIndexed) (h : s.Supported) (k : Encounter s c t)
    (ht : t.WellIndexed) : t.Supported ↔
      ((∀ key old, ¬ s.Meets c key old .stored) → ∀ u ∈ c.addons, t.Supports c u) ∧
      ∀ key old, s.Meets c key old .incoming → old.kind = .addon →
        (s.verdict old c).stored.uniqueId ≠ old.uniqueId →
        ∀ q ∈ s.records, q.key ≠ key → old.uniqueId ∈ q.component.addons →
          t.Supports q.component old.uniqueId := by
  cases k with
  | inserted hnone =>
    have hno := not_meets_of_none hnone
    rw [supported_insert_iff ht]
    constructor
    · exact fun hall => ⟨fun _ => hall.1, fun _ _ hmeets => absurd hmeets (hno _ _ _)⟩
    · intro hboth
      exact ⟨hboth.1 fun _ _ => hno _ _ _, fun r hr u hu => (supported_iff.1 h r hr u hu).insert c⟩
  | @merged key old hmeets =>
    have hkept := h.update hs hmeets.found (f := fun _ => (s.verdict old c).stored)
      (id_reconcile_stored s.settings.add.preferLocal old c)
      (addons_reconcile_stored s.settings.add.preferLocal old c)
      (upholds_reconcile_stored s.settings.add.preferLocal old c)
    refine iff_of_true hkept ⟨fun hno => absurd hmeets (hno key old), ?_⟩
    intro key' old' hmeets'
    cases (hmeets.unique hmeets').2.2
  | @replaced key old hmeets =>
    have hid : (s.verdict old c).incoming.id = c.id := id_reconcile_incoming _ old c
    have haddons : (s.verdict old c).incoming.addons = c.addons :=
      addons_reconcile_incoming _ old c
    have hno : ∀ key' old', ¬ s.Meets c key' old' .stored := hmeets.ne nofun
    have hstored : (s.verdict old c).stored.id = old.id := id_reconcile_stored _ old c
    have hupholds : old.Upholds (s.verdict old c).stored := upholds_reconcile_stored _ old c
    rw [supported_insert_iff ht, supports_removed_iff hs h hmeets.found hstored hupholds
      fun _ _ hsupports => hsupports.insert _, haddons]
    constructor
    · intro hall
      refine ⟨fun _ u hu => (hall.1 u hu).congr hid.symm, ?_⟩
      intro key' old' hmeets'
      obtain ⟨rfl, rfl, -⟩ := hmeets.unique hmeets'
      exact hall.2
    · exact fun hboth => ⟨fun u hu => (hboth.1 hno u hu).congr hid, hboth.2 key old hmeets⟩

/-- Adding a component leaves something attached that no stored addon supports. -/
inductive Orphans (s : Store) (c : Component) : Prop
  /-- The component brings attachments along that nothing supports, and is stored with them. -/
  | brings {id u : String} (hid : c.id = some id) (hpatch : c.mergeKind.isPatch = false)
    (hstored : ∀ key old, ¬ s.Meets (s.patched id c) key old .stored) (hu : u ∈ c.addons)
    (hno : ¬ (s.add c).Supports c u)
  /-- An addon gives way to the component and lost just before the unique ID by which it is attached
  to another record. -/
  | abandons {id : String} {key : Nat} {old : Component} {q : Record} (hid : c.id = some id)
    (hpatch : c.mergeKind.isPatch = false)
    (hmeets : s.Meets (s.patched id c) key old .incoming) (hkind : old.kind = .addon)
    (huid : (s.verdict old (s.patched id c)).stored.uniqueId ≠ old.uniqueId) (hq : q ∈ s.records)
    (hne : q.key ≠ key) (hu : old.uniqueId ∈ q.component.addons)
    (hno : ¬ (s.add c).Supports q.component old.uniqueId)
  /-- A patch redirects all addons that support an attachment of a record to other ones. -/
  | uproots {id u : String} {q : Record} (hid : c.id = some id) (hpatch : Redirects c)
    (hq : q ∈ s.records) (hu : u ∈ q.component.addons) (hout : ¬ c.Extends q.component)
    (hno : ∀ e ∈ s.entries, e.2.kind = .addon → e.2.uniqueId = u → e.2.Extends q.component →
      e.1 ∈ s.targets id c)

theorem supported_add_patch_iff {id : String} (hs : s.WellIndexed) (h : s.Supported)
    (hid : c.id = some id) (hpatch : c.mergeKind.isPatch = true) :
    (s.add c).Supported ↔ ¬ Orphans s c := by
  obtain ⟨pool, patches, heq⟩ := s.add_eq_given hid hpatch
  have hpooled : ({ s with pool } : Store).WellIndexed := hs.same ⟨rfl, rfl, rfl, rfl, rfl, rfl⟩
  have hsupported : ({ s with pool } : Store).Supported := h
  have hgiven : (s.add c).Supported ↔
      (({ s with pool } : Store).given c (s.targets id c)).Supported := by rw [heq]; rfl
  rw [hgiven, supported_given_iff hpooled hsupported (hs.nodup_targets id c)]
  constructor
  · intro hall horphans
    cases horphans with
    | brings _ hpatch' =>
      rw [hpatch] at hpatch'
      cases hpatch'
    | abandons _ hpatch' =>
      rw [hpatch] at hpatch'
      cases hpatch'
    | uproots hid' hredirects hq hu hout hno =>
      obtain rfl := Option.some.inj (hid.symm.trans hid')
      obtain ⟨e, he, hkind, huid, hextends, hkey⟩ := hall _ hq _ hu hredirects hout
      exact hkey (hno e he hkind huid hextends)
  · intro hkept q hq u hu hredirects hout
    by_contra hnone
    push Not at hnone
    exact hkept (.uproots hid hredirects hq hu hout hnone)

theorem supported_add_standalone_iff {id : String} (hs : s.WellIndexed) (h : s.Supported)
    (hproper : c.Proper) (hid : c.id = some id) (hpatch : c.mergeKind.isPatch = false) :
    (s.add c).Supported ↔ ¬ Orphans s c := by
  obtain ⟨pool, k⟩ := s.encounter_add hid hpatch
  have hpooled : ({ s with pool } : Store).WellIndexed := hs.same ⟨rfl, rfl, rfl, rfl, rfl, rfl⟩
  have hsupported : ({ s with pool } : Store).Supported := h
  have haddons : (s.patched id c).addons = c.addons := addons_foldl_applyPatch _ _
  have hsame : (s.patched id c).id = c.id := (sameSource_foldl_applyPatch _ c).id
  rw [supported_encounter_iff hpooled hsupported k (hs.step (.add hproper))]
  simp only [meets_pool_iff, haddons]
  constructor
  · intro hboth horphans
    cases horphans with
    | brings hid' _ hstored hu hno =>
      obtain rfl := Option.some.inj (hid.symm.trans hid')
      exact hno ((hboth.1 hstored _ hu).congr hsame.symm)
    | abandons hid' _ hmeets hkind huid hq hne hu hno =>
      obtain rfl := Option.some.inj (hid.symm.trans hid')
      exact hno (hboth.2 _ _ hmeets hkind huid _ hq hne hu)
    | uproots _ hredirects =>
      rw [hredirects.1] at hpatch
      cases hpatch
  · intro hkept
    refine ⟨?_, ?_⟩
    · intro hstored u hu
      by_contra hno
      exact hkept (.brings hid hpatch hstored hu fun k => hno (k.congr hsame))
    · intro key old hmeets hkind huid q hq hne hu
      by_contra hno
      exact hkept (.abandons hid hpatch hmeets hkind huid hq hne hu hno)

/-- Adding a component leaves attachments supported unless it orphans one. -/
theorem supported_add_iff (hs : s.WellIndexed) (h : s.Supported) (hproper : c.Proper) :
    (s.add c).Supported ↔ ¬ Orphans s c := by
  cases hid : c.id with
  | none =>
    have hno : ¬ Orphans s c := by
      intro horphans
      cases horphans with
      | brings hid' | abandons hid' | uproots hid' =>
        rw [hid] at hid'
        cases hid'
    rw [add_of_no_id hid]
    exact iff_of_true h hno
  | some id =>
    cases hpatch : c.mergeKind.isPatch with
    | true => exact supported_add_patch_iff hs h hid hpatch
    | false => exact supported_add_standalone_iff hs h hproper hid hpatch

/-- Throughout a run, whatever is attached to a component is a stored addon that extends it, if and
only if no addition of the run orphans an attachment. -/
theorem addons_supported_iff {settings : Settings} {reader : Reader} (hr : reader.Proper)
    {ops : List Operation} (hops : ∀ op ∈ ops, Operation.Proper op ∧ op.inMemory = true) :
    (new settings reader).run (unrollAll (new settings reader) ops) =
      (new settings reader).run ops ∧
    ((∀ done later, unrollAll (new settings reader) ops = done ++ later →
        ((new settings reader).run done).Supported) ↔
      ∀ done c later, unrollAll (new settings reader) ops = done ++ .add c :: later →
        ¬ Orphans ((new settings reader).run done) c) := by
  refine ⟨run_unrollAll _ ops, ?_⟩
  have hinv (s : Store) (op : Operation) (hop : op.Atomic) (hs : s.WellIndexed) :
      (s.apply op).WellIndexed := by
    cases hop with
    | add hc => exact hs.step (.add hc)
    | edit hadds => exact hs.edits (edits_apply s hadds)
  have hadd (s : Store) (c : Component) (hop : (Operation.add c).Atomic) (hs : s.WellIndexed)
      (h : s.Supported) : (s.add c).Supported ↔ ¬ Orphans s c := by
    cases hop with
    | add hc => exact supported_add_iff hs h hc
    | edit hadds => cases hadds
  have hedit (s : Store) (op : Operation) (hop : op.Atomic) (hno : ∀ c, op ≠ .add c)
      (hs : s.WellIndexed) (h : s.Supported) : (s.apply op).Supported := by
    cases hop with
    | @add c _ => exact absurd rfl (hno c)
    | edit hadds => exact h.apply hs hadds
  have hempty : (new settings reader).Supported := fun _ hc => absurd hc List.not_mem_nil
  exact run_throughout_iff hinv hadd hedit (wellIndexed_new settings reader) hempty
    (atomic_unrollAll hr hops)

/-- A tool, a plugin of it, and what comes in under the ID of the plugin and says that it extends
another tool. -/
def hostTool : Component := Component.ofId "org.example.Tool"

def hostedPlugin : Component :=
  { Component.ofId "org.example.Plugin" with
    kind := .addon, extendedIds := ["org.example.Tool"] }

def redirection : Component :=
  { Component.ofId "org.example.Plugin" with
    mergeKind := .replace, extendedIds := ["org.example.Other"] }

theorem proper_redirected : ∀ op ∈ [Operation.add hostTool, .add hostedPlugin, .add redirection],
    Operation.Proper op ∧ op.inMemory = true := by
  have htool : hostTool.Proper := by decide +kernel
  have hplugin : hostedPlugin.Proper := by decide +kernel
  have hredirection : redirection.Proper := by decide +kernel
  intro op hop
  simp only [List.mem_cons, List.not_mem_nil, or_false] at hop
  rcases hop with rfl | rfl | rfl
  · exact ⟨htool, rfl⟩
  · exact ⟨hplugin, rfl⟩
  · exact ⟨hredirection, rfl⟩

/-- The redirection orphans what is attached to the tool. -/
theorem exists_orphans :
    Reader.any.Proper ∧
    (∀ op ∈ [Operation.add hostTool, .add hostedPlugin, .add redirection],
      Operation.Proper op ∧ op.inMemory = true) ∧
    ∃ done c later,
      unrollAll (new ⟨{}, {}, ⟨["en"], 4, true, 3⟩⟩ Reader.any)
        [.add hostTool, .add hostedPlugin, .add redirection] = done ++ .add c :: later ∧
      Orphans ((new ⟨{}, {}, ⟨["en"], 4, true, 3⟩⟩ Reader.any).run done) c := by
  refine ⟨Reader.proper_any, proper_redirected, ?_⟩
  by_contra hno
  push Not at hno
  have hall := (@addons_supported_iff ⟨{}, {}, ⟨["en"], 4, true, 3⟩⟩ _ Reader.proper_any _
    proper_redirected).2.2 hno
  have hend := hall _ [] (List.append_nil _).symm
  exact absurd hend (by decide +kernel)

/-- So the plugin stays attached to the tool, which it no longer extends. -/
theorem not_supported_after_redirection :
    hostTool.Proper ∧ hostedPlugin.Proper ∧ redirection.Proper ∧
    ¬ ((new ⟨{}, {}, ⟨["en"], 4, true, 3⟩⟩ Reader.any).run
      [.add hostTool, .add hostedPlugin, .add redirection]).Supported := by
  refine ⟨by decide +kernel, by decide +kernel, by decide +kernel, ?_⟩
  decide +kernel

end SoftwareCatalog.Store
