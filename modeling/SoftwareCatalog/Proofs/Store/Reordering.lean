import Mathlib.Data.Finset.Dedup
import Mathlib.Data.Multiset.MapFold
import SoftwareCatalog.Proofs.Search.Ranking
import SoftwareCatalog.Proofs.Store.Inheritance
import SoftwareCatalog.Proofs.Store.Reattachment
import SoftwareCatalog.Proofs.Store.SearchTokens

namespace SoftwareCatalog

/-- What a component is, and what is attached to it in whatever order. -/
def Component.holding (c : Component) : Component × Finset String := (c.bare, c.addons.toFinset)

theorem Component.holding_eq_iff {c d : Component} : d.holding = c.holding ↔
    d.bare = c.bare ∧ ∀ u, u ∈ d.addons ↔ u ∈ c.addons := by
  unfold holding
  rw [Prod.mk.injEq, List.toFinset.ext_iff]

/-- Where elements that agree in one respect agree in another one, lists that are the same in the
first respect but for their order are so in the second one. -/
theorem perm_map_of_agree {α β γ δ : Type} {as : List α} {bs : List β} {f : α → γ} {g : β → γ}
    {h : α → δ} {k : β → δ} (hperm : (as.map f).Perm (bs.map g))
    (hagree : ∀ a ∈ as, ∀ b ∈ bs, f a = g b → h a = k b) : (as.map h).Perm (bs.map k) := by
  rw [← Multiset.coe_eq_coe, ← Multiset.map_coe, ← Multiset.map_coe, ← Multiset.rel_eq,
    Multiset.rel_map] at hperm ⊢
  exact hperm.mono hagree

namespace Store

open Component (BelongsTo attachments holding)
open Search (Hit TokenCache)

variable {s t : Store} {c d : Component} {q r : Record} {u query : String}

theorem SameCatalog.led? (k : SameCatalog s t) : t.led? = s.led? := by
  have hfind (key : Nat) : (t.find? key).map Component.bare = (s.find? key).map Component.bare := by
    rw [find?_bare, find?_bare, k.entries]
  funext u
  unfold Store.led?
  simp only [Option.map_bind, Function.comp_def, k.keyByUniqueId, hfind]

theorem hitOf?_congr (hcontext : t.context = s.context) (htokens : t.tokensOf q = s.tokensOf r)
    (huid : q.component.uniqueId = r.component.uniqueId) :
    t.hitOf? query q = s.hitOf? query r := by
  unfold hitOf? hit?
  rw [hcontext, htokens, huid]

/-- Searches in two catalogs find the same if there is a trait of records that decides on their hits
and that the records of both have in some order. -/
theorem search_eq_of_perm {α : Type} {f g : Record → α}
    (hperm : (t.records.map f).Perm (s.records.map g))
    (hagree : ∀ q ∈ t.records, ∀ r ∈ s.records, f q = g r →
      t.hitOf? query q = s.hitOf? query r) :
    (t.search query).1 = (s.search query).1 := by
  have hhits := (perm_map_of_agree hperm hagree).filterMap id
  rw [List.filterMap_map, List.filterMap_map, Function.id_comp, Function.id_comp] at hhits
  rw [search_eq, search_eq, Hit.rank_eq_rank_iff]
  exact hhits

/-- `t` holds the same components as `s`, each with the same attachments, in whatever order, and
what is attached stands for the same addons. -/
structure Reordered (s t : Store) : Prop where
  context : t.context = s.context
  holdings : (t.components.map holding).Perm (s.components.map holding)
  led : ∀ c ∈ s.components, ∀ u ∈ c.addons, t.led? u = s.led? u

theorem Reordered.search_eq (k : Reordered s t) (hs : s.Fresh) (ht : t.Fresh) (query : String) :
    (t.search query).1 = (s.search query).1 := by
  have hperm := k.holdings
  unfold components at hperm
  rw [List.map_map, List.map_map] at hperm
  refine search_eq_of_perm hperm fun q hq r hr hsame => ?_
  obtain ⟨hbare, haddons⟩ := Component.holding_eq_iff.1 hsame
  have hled := k.led r.component (List.mem_map_of_mem hr)
  have huid : q.component.bare.uniqueId = r.component.bare.uniqueId :=
    congrArg Component.uniqueId hbare
  refine hitOf?_congr k.context ?_ huid
  rw [ht.tokensOf hq, hs.tokensOf hr, k.context]
  exact build_addonsOf_congr (congrArg (TokenCache.entriesOf s.context) hbare :) haddons hled

theorem mem_attachments {cs : List Component} :
    u ∈ attachments cs c ↔ ∃ a ∈ cs, a.BelongsTo c ∧ a.uniqueId = u := by
  unfold attachments
  simp [and_assoc]

theorem WellIndexed.mem_links_iff (h : s.WellIndexed) (hr : r ∈ s.records) :
    (r.key, u) ∈ s.links ↔ u ∈ attachments s.components r.component := by
  rw [links_eq_flatMap, mem_attachments]
  simp only [List.mem_flatMap, List.mem_filter, List.mem_map, Prod.mk.injEq, decide_eq_true_eq]
  constructor
  · rintro ⟨a, ⟨ha, hkind⟩, k, hk, rfl, rfl⟩
    exact ⟨a, ha, (h.mem_hostKeys_iff hkind hr).1 hk, rfl⟩
  · rintro ⟨a, ha, hbelongs, rfl⟩
    have hkey := (h.mem_hostKeys_iff hbelongs.kind hr).2 hbelongs
    exact ⟨a, ⟨ha, hbelongs.kind⟩, r.key, hkey, rfl, rfl⟩

/-- What is attached depends on nothing but the components that are stored. -/
theorem WellIndexed.holdings_attachAddons (h : s.WellIndexed) :
    s.attachAddons.2.components.map holding = (s.components.map Component.bare).map fun b =>
      (b, (attachments (s.components.map Component.bare) b).toFinset) := by
  have hattached : s.attachAddons.2.components.map holding = s.records.map fun r =>
      (r.component.bare, (attachments s.components r.component).toFinset) := by
    rw [components, s.records_attachAddons, List.map_map, List.map_map]
    apply List.map_congr_left
    intro r hr
    refine Prod.ext rfl (List.toFinset.ext_iff.2 fun u => ?_)
    rw [← h.mem_links_iff hr]
    simp [Record.withAddons]
  rw [hattached, components, List.map_map, List.map_map]
  apply List.map_congr_left
  intro r _
  exact Prod.ext rfl (congrArg List.toFinset (Component.attachments_bare s.components _).symm)

/-- `t` holds the same components as `s` in whatever order, whatever is attached to them, and the
unique ID of each addon leads to the same one. -/
structure SameStock (s t : Store) : Prop where
  context : t.context = s.context
  components : (t.components.map Component.bare).Perm (s.components.map Component.bare)
  led : ∀ a ∈ s.components, a.kind = .addon → t.led? a.uniqueId = s.led? a.uniqueId

theorem SameStock.reordered (k : SameStock s t) (hs : s.WellIndexed) (ht : t.WellIndexed) :
    Reordered s.attachAddons.2 t.attachAddons.2 where
  context := by rw [context_attachAddons, context_attachAddons, k.context]
  holdings := by
    have hattached : (fun b => (b, (attachments (t.components.map Component.bare) b).toFinset)) =
        fun b => (b, (attachments (s.components.map Component.bare) b).toFinset) := by
      funext b
      refine Prod.ext rfl (List.toFinset.ext_iff.2 fun u => ?_)
      simp only [mem_attachments, k.components.mem_iff]
    rw [hs.holdings_attachAddons, ht.holdings_attachAddons, hattached]
    exact k.components.map _
  led c hc u hu := by
    obtain ⟨r, hr, rfl⟩ := List.mem_map.1 hc
    obtain ⟨q, -, hlink⟩ := relinked_attachAddons s r hr
    rcases hlink.addons u hu with ⟨-, hno⟩ | hnew
    · exact absurd trivial hno
    · obtain ⟨a, ha, hkind, rfl, -⟩ := mem_links hnew
      rw [t.sameCatalog_attachAddons.led?, s.sameCatalog_attachAddons.led?]
      exact k.led a.component (List.mem_map_of_mem ha) hkind

/-- Once addons are attached, nothing of the history of a catalog is left in what is found. -/
theorem SameStock.search_attachAddons_eq (k : SameStock s t) (hs : s.Steady) (ht : t.Steady)
    (query : String) : (t.attachAddons.2.search query).1 = (s.attachAddons.2.search query).1 :=
  (k.reordered hs.uniquelyIndexed.wellIndexed ht.uniquelyIndexed.wellIndexed).search_eq
    hs.freshAlone.fresh_attachAddons ht.freshAlone.fresh_attachAddons query

end Store

end SoftwareCatalog
