import SoftwareCatalog.Proofs.Search.TokenUnion
import SoftwareCatalog.Proofs.Store.Attachment
import SoftwareCatalog.Proofs.Store.Move

namespace SoftwareCatalog

namespace Store

open Search (TokenCache)

variable {s t : Store} {key : Nat} {c d old : Component} {x : String}

/-- The component that a unique ID leads to, without what is attached to it. -/
def led? (s : Store) (u : String) : Option Component :=
  ((s.keyByUniqueId.get? u).bind s.find?).map Component.bare

theorem map_bare_addonsOf (s : Store) (c : Component) :
    (s.addonsOf c).map Component.bare = c.addons.filterMap s.led? := by
  unfold addonsOf
  rw [List.map_filterMap]
  rfl

/-- Neither the order of the addons nor what is attached to them matters to tokens. -/
theorem build_addonsOf_congr {ctx : Search.Context}
    (hown : TokenCache.entriesOf ctx d = TokenCache.entriesOf ctx c)
    (haddons : ∀ u, u ∈ d.addons ↔ u ∈ c.addons) (hled : ∀ u ∈ c.addons, t.led? u = s.led? u) :
    TokenCache.build ctx d (t.addonsOf d) = .build ctx c (s.addonsOf c) := by
  have hentries (x : Component) (xs : List Component) :
      (x :: xs).flatMap (TokenCache.entriesOf ctx) = TokenCache.entriesOf ctx x ++
        (xs.map Component.bare).flatMap (TokenCache.entriesOf ctx) := by
    rw [List.flatMap_map]
    rfl
  have hsame : ∀ x, x ∈ d.addons.filterMap t.led? ↔ x ∈ c.addons.filterMap s.led? := by
    intro x
    simp only [List.mem_filterMap, haddons]
    exact exists_congr fun u => and_congr_right fun hu => by rw [hled u hu]
  rw [TokenCache.build_eq_ofEntries, TokenCache.build_eq_ofEntries, hentries d, hentries c,
    map_bare_addonsOf, map_bare_addonsOf, hown]
  apply TokenCache.ofEntries_congr
  intro e
  simp only [List.mem_append, List.mem_flatMap, hsame]

/-- No addon shares its unique ID with another record. -/
def AddonsDistinct (s : Store) : Prop :=
  ∀ d ∈ s.entries, ∀ e ∈ s.entries, d.2.kind = .addon → e.2.uniqueId = d.2.uniqueId → e.1 = d.1

instance (s : Store) : Decidable s.AddonsDistinct :=
  inferInstanceAs (Decidable (∀ d ∈ s.entries, ∀ e ∈ s.entries, d.2.kind = .addon →
    e.2.uniqueId = d.2.uniqueId → e.1 = d.1))

/-- The unique ID of every addon leads to it. -/
def AddonsLed (s : Store) : Prop :=
  ∀ e ∈ s.entries, e.2.kind = .addon → s.keyByUniqueId.get? e.2.uniqueId = some e.1

/-- A stored addon with a unique ID extends a component. -/
def Supports (s : Store) (c : Component) (u : String) : Prop :=
  ∃ e ∈ s.entries, e.2.kind = .addon ∧ e.2.uniqueId = u ∧ e.2.Extends c

/-- Everything attached is a stored addon that extends what it is attached to, and is found by its
unique ID. -/
structure Attached (s : Store) : Prop where
  indexed : s.WellIndexed
  distinct : s.AddonsDistinct
  led : s.AddonsLed
  supported : ∀ r ∈ s.records, ∀ u ∈ r.component.addons, s.Supports r.component u

/-- The tokens that are built are those that would be built now. -/
def Fresh (s : Store) : Prop :=
  ∀ r ∈ s.records, ∀ tokens, r.tokens = some tokens →
    tokens = .build s.context r.component (s.addonsOf r.component)

theorem Fresh.tokensOf (h : s.Fresh) {r : Record} (hr : r ∈ s.records) :
    s.tokensOf r = .build s.context r.component (s.addonsOf r.component) := by
  unfold Store.tokensOf
  cases hcached : r.tokens with
  | none => rfl
  | some cached => exact h r hr cached hcached

theorem Attached.eq_of_uniqueId (h : s.Attached) {d e : Nat × Component} (hd : d ∈ s.entries)
    (he : e ∈ s.entries) (hkind : d.2.kind = .addon) (heq : e.2.uniqueId = d.2.uniqueId) : e = d :=
  h.indexed.keyed.eq_of_key he hd (h.distinct d hd e he hkind heq)

theorem led?_addon (hkeyed : s.Keyed) (hled : s.AddonsLed) {e : Nat × Component}
    (he : e ∈ s.entries) (hkind : e.2.kind = .addon) : s.led? e.2.uniqueId = some e.2 := by
  obtain ⟨d, hd, hbare⟩ := hkeyed.find?_of_mem he
  unfold led?
  rw [hled e he hkind, Option.bind_some, hd, Option.map_some, hbare]

/-- A record of a changed catalog: it has no tokens or fresh ones, or it has those of a record whose
text and attachments are still the same. -/
inductive Carried (s t : Store) (r : Record) : Prop
  | settled (hfresh : ∀ tokens, r.tokens = some tokens →
      tokens = .build t.context r.component (t.addonsOf r.component))
    (hsupported : ∀ u ∈ r.component.addons, t.Supports r.component u)
  | kept {q : Record} {formats : List Format} (hq : q ∈ s.records)
    (hr : r = { q with component := { q.component with formats } })
    (hstays : ∀ u ∈ q.component.addons, ∀ e ∈ s.entries, e.2.kind = .addon →
      e.2.uniqueId = u → e ∈ t.entries)

theorem Carried.reset {r : Record} (htokens : r.tokens = none)
    (hsupported : ∀ u ∈ r.component.addons, t.Supports r.component u) : Carried s t r := by
  refine .settled (fun tokens hr => ?_) hsupported
  rw [htokens] at hr
  cases hr

theorem Carried.supported (h : s.Attached) {r : Record} (k : Carried s t r) :
    ∀ u ∈ r.component.addons, t.Supports r.component u := by
  cases k with
  | settled _ hsupported => exact hsupported
  | @kept q formats hq hr hstays =>
    obtain rfl := hr
    intro u hu
    obtain ⟨e, he, hkind, huid, hextends⟩ := h.supported q hq u hu
    exact ⟨e, hstays u hu e he hkind huid, hkind, huid, hextends⟩

theorem Carried.fresh (h : s.Attached) (hfresh : s.Fresh) (hkeyed : t.Keyed) (hled : t.AddonsLed)
    (hcontext : t.context = s.context) {r : Record} (k : Carried s t r) {tokens}
    (hr : r.tokens = some tokens) :
    tokens = .build t.context r.component (t.addonsOf r.component) := by
  cases k with
  | settled hfresh _ => exact hfresh tokens hr
  | @kept q formats hq hr' hstays =>
    obtain rfl := hr'
    have hsame : ∀ u ∈ q.component.addons, t.led? u = s.led? u := by
      intro u hu
      obtain ⟨e, he, hkind, rfl, -⟩ := h.supported q hq u hu
      have hin := hstays _ hu e he hkind rfl
      rw [led?_addon h.indexed.keyed h.led he hkind, led?_addon hkeyed hled hin hkind]
    rw [hfresh q hq tokens hr, hcontext]
    exact (build_addonsOf_congr rfl (fun _ => Iff.rfl) hsame).symm

/-- Attachments are in order, and tokens are fresh. -/
structure Current (s : Store) : Prop where
  attached : s.Attached
  fresh : s.Fresh

theorem Current.carried (h : s.Current) (hindexed : t.WellIndexed) (hdistinct : t.AddonsDistinct)
    (hled : t.AddonsLed) (hcontext : t.context = s.context)
    (hall : ∀ r ∈ t.records, Carried s t r) : t.Current where
  attached := ⟨hindexed, hdistinct, hled, fun r hr => (hall r hr).supported h.attached⟩
  fresh r hr _ htokens := (hall r hr).fresh h.attached h.fresh hindexed.keyed hled hcontext htokens

/-- A record that was put in place of another one before attachments were repaired. -/
def Reworked (q₀ q : Record) : Prop :=
  (q.tokens = none ∧ q.component.addons = q₀.component.addons ∧
    q.component.id = q₀.component.id) ∨
  ∃ formats, q = { q₀ with component := { q₀.component with formats } }

theorem Reworked.addons {q₀ q : Record} (h : Reworked q₀ q) :
    q.component.addons = q₀.component.addons := by
  rcases h with ⟨-, h, -⟩ | ⟨formats, rfl⟩
  · exact h
  · rfl

theorem Reworked.id {q₀ q : Record} (h : Reworked q₀ q) :
    q.component.id = q₀.component.id := by
  rcases h with ⟨-, -, h⟩ | ⟨formats, rfl⟩
  · exact h
  · rfl

theorem Supports.congr {d : Component} {u : String} (h : s.Supports c u) (hid : d.id = c.id) :
    s.Supports d u := by
  obtain ⟨e, he, hkind, huid, y, hy, hcy⟩ := h
  exact ⟨e, he, hkind, huid, y, hy, hid.trans hcy⟩

/-- It is enough that whatever addon goes or changes was detached. -/
theorem Attached.carried (h : s.Attached) {q₀ q r : Record} (hq₀ : q₀ ∈ s.records)
    (hq : Reworked q₀ q) {gone come : String → Prop} (k : q.Relinked gone come r)
    (hgone : ∀ e ∈ s.entries, e.2.kind = .addon → e.2.Extends q₀.component →
      e ∈ t.entries ∨ gone e.2.uniqueId)
    (hcome : ∀ u, come u → t.Supports q.component u) : Carried s t r := by
  have hid : r.component.id = q.component.id := k.id
  have hsupported : ∀ u ∈ r.component.addons, t.Supports r.component u := by
    intro u hu
    rcases k.addons u hu with ⟨hin, hno⟩ | hnew
    · rw [hq.addons] at hin
      obtain ⟨e, he, hkind, rfl, hextends⟩ := h.supported q₀ hq₀ u hin
      have hstays := (hgone e he hkind hextends).resolve_right hno
      have hsupports : t.Supports q₀.component e.2.uniqueId := ⟨e, hstays, hkind, rfl, hextends⟩
      exact hsupports.congr (hid.trans hq.id)
    · exact (hcome u hnew).congr hid
  rcases k.tokens with ⟨rfl, hno⟩ | ⟨hnone, -⟩
  · rcases hq with ⟨hnone, -, -⟩ | ⟨formats, rfl⟩
    · exact .reset hnone hsupported
    · refine .kept hq₀ rfl ?_
      intro u hu e he hkind huid
      obtain ⟨d, hd, hdkind, hdu, hextends⟩ := h.supported q₀ hq₀ u hu
      obtain rfl := h.eq_of_uniqueId hd he hdkind (huid.trans hdu.symm)
      exact (hgone e he hkind hextends).resolve_right fun hg => hno u hu (hdu ▸ hg)
  · exact .reset hnone hsupported

theorem AddonsDistinct.of_subset (h : s.AddonsDistinct) (hsub : ∀ e ∈ t.entries, e ∈ s.entries) :
    t.AddonsDistinct :=
  fun d hd e he => h d (hsub d hd) e (hsub e he)

theorem AddonsDistinct.same (h : s.AddonsDistinct) (k : SameIndices s t) : t.AddonsDistinct :=
  h.of_subset fun _ he => k.entries ▸ he

theorem AddonsLed.same (h : s.AddonsLed) (k : SameIndices s t) : t.AddonsLed := by
  unfold AddonsLed
  rw [k.entries, k.keyByUniqueId]
  exact h

theorem AddonsLed.inserted (h : s.AddonsLed) (k : Inserted c s t) (hdistinct : t.AddonsDistinct) :
    t.AddonsLed := by
  intro e he hkind
  have hnew : (s.nextKey, c.bare) ∈ t.entries := k.mem_iff.2 (.inr ⟨rfl, rfl⟩)
  rw [k.keyByUniqueId]
  split
  · rename_i heq
    exact congrArg some (hdistinct e he _ hnew hkind heq.symm)
  · rename_i hne
    rcases k.mem_iff.1 he with hin | ⟨-, hbare⟩
    · exact h e hin hkind
    · exact absurd (congrArg Component.uniqueId hbare) hne

theorem AddonsLed.altered (h : s.AddonsLed) (hkeyed : s.Keyed) {g : Component → Component}
    (hold : (key, old) ∈ s.entries) (k : Altered key g old s t) (hdistinct : t.AddonsDistinct) :
    t.AddonsLed := by
  intro e he hkind
  have hmem := k.mem_iff hkeyed hold (n := e.1) (d := e.2)
  have hnew : (key, g old) ∈ t.entries := (k.mem_iff hkeyed hold).2 (.inl ⟨rfl, rfl⟩)
  rw [k.keyByUniqueId]
  split
  · rename_i heq
    exact congrArg some (hdistinct e he _ hnew hkind heq.symm)
  · rename_i hne
    rcases hmem.1 he with ⟨-, hg⟩ | ⟨hother, hin⟩
    · exact absurd (congrArg Component.uniqueId hg) hne
    · have hled := h e hin hkind
      rw [if_neg]
      · exact hled
      · rintro ⟨-, hkey⟩
        exact hother (Option.some.inj (hled.symm.trans hkey))

theorem AddonsLed.removed (h : s.AddonsLed) (k : Removed key c s t) : t.AddonsLed := by
  intro e he hkind
  obtain ⟨hother, hin⟩ := k.mem_iff.1 he
  have hled := h e hin hkind
  rw [k.keyByUniqueId, if_neg]
  · exact hled
  · rintro ⟨-, hkey⟩
    exact hother (Option.some.inj (hled.symm.trans hkey))

theorem context_insert (s : Store) (c : Component) : (s.insert c).context = s.context := by
  obtain ⟨records, hinsert⟩ := s.exists_insert c
  rw [hinsert]
  rfl

theorem context_refresh (s : Store) (key : Nat) (previous : String) :
    (s.refresh key previous).context = s.context := by
  cases hc : s.find? key with
  | none => rw [refresh_of_none hc]
  | some c =>
    obtain ⟨records, keyByUniqueId, hrefresh⟩ := exists_refresh hc previous
    rw [hrefresh]
    rfl

theorem context_removeKey (s : Store) (key : Nat) : (s.removeKey key).context = s.context := by
  cases hc : s.find? key with
  | none => rw [removeKey_of_none hc]
  | some c =>
    obtain ⟨records, keyByUniqueId, hremove⟩ := exists_removeKey hc
    rw [hremove]
    rfl

theorem context_attachAddons (s : Store) : s.attachAddons.2.context = s.context := by
  obtain ⟨records, hattach⟩ := s.exists_attachAddons
  rw [hattach]

theorem Reworked.refl (q : Record) : Reworked q q := .inr ⟨q.component.formats, rfl⟩

theorem Current.same (h : s.Current) (k : SameIndices s t) (hrecords : t.records = s.records)
    (hcontext : t.context = s.context) : t.Current := by
  apply h.carried (h.attached.indexed.same k) (h.attached.distinct.same k) (h.attached.led.same k)
    hcontext
  rw [hrecords]
  intro r hr
  exact .kept hr rfl fun u _ e he _ _ => k.entries ▸ he

/-- A component may come in with attachments that are supported then, and with tokens that are
fresh then. -/
theorem Current.insert (h : s.Current) (hbrings : ∀ u ∈ c.addons, (s.insert c).Supports c u)
    (htokens : ∀ tokens, c.tokens = some tokens →
      tokens = .build s.context c ((s.insert c).addonsOf c))
    (hindexed : (s.insert c).WellIndexed) (hdistinct : (s.insert c).AddonsDistinct) :
    (s.insert c).Current := by
  have k : Inserted c s (s.insert c) := inserted_insert s c
  have hnew : (s.nextKey, c.bare) ∈ (s.insert c).entries := k.mem_iff.2 (.inr ⟨rfl, rfl⟩)
  apply h.carried hindexed hdistinct (h.attached.led.inserted k hdistinct) (s.context_insert c)
  intro r hr
  obtain ⟨q, hq, hlink⟩ := relinked_insert s c r hr
  have hcome : ∀ u, (c.kind = .addon ∧ u = c.uniqueId ∧
      q.key ∈ c.extendedIds.flatMap (s.insert c).keysOf) →
      (s.insert c).Supports q.component u := by
    rintro u ⟨hkind, rfl, hkey⟩
    exact ⟨_, hnew, hkind, rfl, (hindexed.extended_iff hr hlink).1 hkey⟩
  rcases hq with hq | rfl
  · apply h.attached.carried hq (.refl q) hlink ?_ hcome
    intro e he _ _
    exact .inl (k.mem_iff.2 (.inl he))
  · have hsupported : ∀ u ∈ r.component.addons, (s.insert c).Supports r.component u := by
      intro u hu
      rcases hlink.addons u hu with ⟨hin, -⟩ | hcomes
      · exact (hbrings u hin).congr hlink.id
      · exact (hcome u hcomes).congr hlink.id
    rcases hlink.tokens with ⟨rfl, -⟩ | ⟨hnone, -⟩
    · refine .settled (fun tokens hbrought => ?_) hsupported
      rw [s.context_insert c]
      exact htokens tokens hbrought
    · exact .reset hnone hsupported

theorem Current.refreshed (h : s.Current) {f : Record → Record} {g : Component → Component}
    (hold : s.find? key = some old) (hc : (s.modify key f).find? key = some c)
    (hf : ∀ q, q.component = old → Reworked q (f q)) (hupholds : old.Upholds c)
    (hid : c.id = old.id) (hg : g old.bare = c.bare)
    (k : Altered key g old.bare s ((s.modify key f).refresh key old.uniqueId))
    (hdistinct : ((s.modify key f).refresh key old.uniqueId).AddonsDistinct) :
    ((s.modify key f).refresh key old.uniqueId).Current := by
  have hentry := mem_entries_of_find? hold
  have hkeyed := h.attached.indexed.keyed
  have hmem {n : Nat} {d : Component} := k.mem_iff hkeyed hentry (n := n) (d := d)
  have hgid : (g old.bare).id = old.bare.id := by rw [hg]; exact hid
  have hindexed := h.attached.indexed.altered hentry hgid k
  have hnew := hmem.2 (.inl ⟨rfl, hg.symm⟩)
  apply h.carried hindexed hdistinct (h.attached.led.altered hkeyed hentry k hdistinct)
    (context_refresh _ _ _)
  intro r hr
  obtain ⟨q, hq, hlink⟩ := relinked_refresh hc old.uniqueId r hr
  obtain ⟨q₀, hq₀, rfl⟩ := List.mem_map.1 hq
  generalize hrework : (if q₀.key = key then f q₀ else q₀) = q at hlink
  have hreworked : Reworked q₀ q := by
    rw [← hrework]
    exact hkeyed.of_changed hold hq₀ (.refl q₀) (hf q₀)
  have hextended := hindexed.extended_iff (c := c) hr hlink
  apply h.attached.carried hq₀ hreworked hlink
  · intro e he hkind hextends
    by_cases hekey : e.1 = key
    · right
      obtain rfl : e = (key, old.bare) := hkeyed.eq_of_key he hentry hekey
      obtain ⟨hckind, hsub⟩ := hupholds hkind
      obtain ⟨y, hy, hyid⟩ := hextends
      exact ⟨hckind, rfl, hextended.2 ⟨y, hsub hy, hreworked.id.trans hyid⟩⟩
    · exact .inl (hmem.2 (.inr ⟨hekey, he⟩))
  · rintro u ⟨hkind, rfl, hqkey⟩
    exact ⟨_, hnew, hkind, rfl, hextended.1 hqkey⟩

theorem Current.removed (h : s.Current) {f : Record → Record} (hold : s.find? key = some old)
    (hc : (s.modify key f).find? key = some c) (hkey : ∀ q, (f q).key = q.key)
    (hupholds : old.Upholds c) (huid : old.kind = .addon → c.uniqueId = old.uniqueId)
    (hid : c.id = old.id) : ((s.modify key f).removeKey key).Current := by
  have hentry := mem_entries_of_find? hold
  have hkeyed := h.attached.indexed.keyed
  have k : Removed key c s ((s.modify key f).removeKey key) := removed_modify_removeKey hc hkey
  have hindexed := h.attached.indexed.removed hentry hid k
  have hdistinct := h.attached.distinct.of_subset fun e he => (k.mem_iff.1 he).2
  apply h.carried hindexed hdistinct (h.attached.led.removed k) (context_removeKey _ _)
  intro r hr
  obtain ⟨q, hq, hother, hlink⟩ := relinked_removeKey hc r hr
  have hq₀ : q ∈ s.records := by
    obtain ⟨q₀, hq₀, rfl⟩ := List.mem_map.1 hq
    split at hother
    · rename_i hq₀key
      exact absurd ((hkey q₀).trans hq₀key) hother
    · rename_i hq₀key
      rwa [if_neg hq₀key]
  apply h.attached.carried hq₀ (.refl q) hlink ?_ fun _ => False.elim
  intro e he hkind hextends
  by_cases hekey : e.1 = key
  · right
    obtain rfl : e = (key, old.bare) := hkeyed.eq_of_key he hentry hekey
    obtain ⟨hckind, hsub⟩ := hupholds hkind
    obtain ⟨y, hy, hyid⟩ := hextends
    exact ⟨hckind, (huid hkind).symm, (hindexed.extended_iff hr hlink).2 ⟨y, hsub hy, hyid⟩⟩
  · exact .inl (k.mem_iff.2 ⟨hekey, he⟩)

theorem Current.attachAddons (h : s.Current) : s.attachAddons.2.Current := by
  have k := s.sameCatalog_attachAddons.sameIndices
  apply h.carried (h.attached.indexed.same k) (h.attached.distinct.same k) (h.attached.led.same k)
    s.context_attachAddons
  intro r hr
  obtain ⟨q, hq, hlink⟩ := relinked_attachAddons s r hr
  apply h.attached.carried hq (.refl q) hlink fun _ _ _ _ => .inr trivial
  intro u hu
  obtain ⟨a, ha, hkind, huid, hkey⟩ := mem_links hu
  have hextends := (h.attached.indexed.mem_extended_iff hq).1 hkey
  have hentry : (a.key, a.component.bare) ∈ s.attachAddons.2.entries := by
    rw [k.entries]
    exact List.mem_map_of_mem ha
  exact ⟨_, hentry, hkind, huid, hextends⟩

theorem Current.buildTokens (h : s.Current) : s.buildTokens.Current := by
  have k := s.sameCatalog_buildTokens.sameIndices
  have hfind : s.buildTokens.find? = s.find? := by
    funext k
    simp [find?, Store.buildTokens, List.find?_map, Function.comp_def]
  refine ⟨⟨h.attached.indexed.same k, h.attached.distinct.same k, h.attached.led.same k, ?_⟩, ?_⟩
  · intro r hr u hu
    obtain ⟨q, hq, rfl⟩ := List.mem_map.1 hr
    obtain ⟨e, he, hsupports⟩ := h.attached.supported q hq u hu
    exact ⟨e, k.entries ▸ he, hsupports⟩
  · intro r hr tokens htokens
    obtain ⟨q, hq, rfl⟩ := List.mem_map.1 hr
    have haddons : s.buildTokens.addonsOf q.component = s.addonsOf q.component := by
      unfold addonsOf
      rw [hfind]
      rfl
    have hbuilt : s.tokensOf q = tokens := Option.some.inj htokens
    rw [haddons, ← hbuilt]
    exact h.fresh.tokensOf hq

end Store

end SoftwareCatalog
