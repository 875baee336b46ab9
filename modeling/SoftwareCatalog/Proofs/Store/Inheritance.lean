import SoftwareCatalog.Proofs.Store.Freshness
import SoftwareCatalog.Proofs.Store.Operation
import SoftwareCatalog.Proofs.Store.Patching
import SoftwareCatalog.Proofs.Store.UniqueIdIndex

namespace SoftwareCatalog

/-- Tokens that a component without attachments brings along are those that would be built. -/
def Component.FreshIn (ctx : Search.Context) (c : Component) : Prop :=
  c.addons = [] → ∀ tokens, c.tokens = some tokens → tokens = .build ctx c []

theorem Component.freshIn_of_none {ctx : Search.Context} {c : Component} (h : c.tokens = none) :
    c.FreshIn ctx := by
  intro _ tokens hbrought
  rw [h] at hbrought
  cases hbrought

namespace Store

variable {s t u : Store} {come come' : Component → Prop} {key : Nat} {c : Component}
  {cs : List Component}

theorem TokensApart.find? (h : s.TokensApart) (hc : s.find? key = some c) : c.tokens = none := by
  obtain ⟨r, hr, rfl⟩ := Option.map_eq_some_iff.1 hc
  exact h r (List.mem_of_find?_eq_some hr)

/-- A record has no tokens, or it has those of a record with the same text and attachments, which
was there before or is that of a component that came in. -/
def Handed (come : Component → Prop) (s : Store) (r : Record) : Prop :=
  r.tokens = none ∨ ∃ q formats, (q ∈ s.records ∨ ∃ key c, come c ∧ q = .ofComponent key c) ∧
    r = { q with component := { q.component with formats } }

/-- Texts become tokens as before, and no tokens are built that were not there, but for those that
components bring along which come in. -/
structure Inherits (come : Component → Prop) (s t : Store) : Prop where
  context : t.context = s.context
  apart : s.TokensApart → t.TokensApart
  records : ∀ r ∈ t.records, s.Handed come r

theorem handed_of_mem {r : Record} (h : r ∈ s.records) : s.Handed come r :=
  .inr ⟨r, r.component.formats, .inl h, rfl⟩

theorem Inherits.refl (s : Store) : Inherits come s s := ⟨rfl, id, fun _ => handed_of_mem⟩

theorem Inherits.handed (h : Inherits come s t) {r : Record} (hr : t.Handed come r) :
    s.Handed come r := by
  rcases hr with hnone | ⟨q, formats, hq | hcome, rfl⟩
  · exact .inl hnone
  · rcases h.records q hq with hnone | ⟨p, earlier, hp, rfl⟩
    · exact .inl hnone
    · exact .inr ⟨p, formats, hp, rfl⟩
  · exact .inr ⟨q, formats, .inr hcome, rfl⟩

theorem Inherits.trans (h : Inherits come s t) (k : Inherits come t u) : Inherits come s u :=
  ⟨k.context.trans h.context, fun hs => k.apart (h.apart hs), fun r hr => h.handed (k.records r hr)⟩

/-- It matters only who comes in with tokens. -/
theorem Inherits.mono (h : Inherits come s t) (hcome : ∀ c, come c → come' c ∨ c.tokens = none) :
    Inherits come' s t := by
  refine ⟨h.context, h.apart, fun r hr => ?_⟩
  rcases h.records r hr with hnone | ⟨q, formats, hq | ⟨key, c, hc, rfl⟩, rfl⟩
  · exact .inl hnone
  · exact .inr ⟨q, formats, .inl hq, rfl⟩
  · rcases hcome c hc with hc' | hnone
    · exact .inr ⟨_, formats, .inr ⟨key, c, hc', rfl⟩, rfl⟩
    · exact .inl hnone

theorem Inherits.of_records (hcontext : t.context = s.context) (hrecords : t.records = s.records) :
    Inherits come s t :=
  ⟨hcontext, fun hs r hr => hs r (hrecords ▸ hr), fun _ hr => handed_of_mem (hrecords ▸ hr)⟩

/-- Attaching and detaching voids tokens wherever it changes something. -/
theorem Inherits.of_relinked (hcontext : t.context = s.context)
    (h : ∀ r ∈ t.records, ∃ q gone new, q.Relinked gone new r ∧ s.Handed come q ∧
      (s.TokensApart → q.TokensApart)) : Inherits come s t := by
  refine ⟨hcontext, fun hs r hr => ?_, fun r hr => ?_⟩
  · obtain ⟨q, _, _, hlink, -, hapart⟩ := h r hr
    exact hlink.apart (hapart hs)
  · obtain ⟨q, _, _, hlink, hq, -⟩ := h r hr
    rcases hlink.tokens with ⟨rfl, -⟩ | ⟨hnone, -⟩
    · exact hq
    · exact .inl hnone

theorem inherits_modify (s : Store) (key : Nat) {f : Record → Record}
    (hapart : s.TokensApart → ∀ q ∈ s.records, (f q).TokensApart)
    (hf : ∀ q ∈ s.records, s.Handed come (f q)) : Inherits come s (s.modify key f) := by
  refine ⟨rfl, fun hs r hr => ?_, fun r hr => ?_⟩
  · obtain ⟨q, hq, rfl⟩ := List.mem_map.1 hr
    split
    · exact hapart hs q hq
    · exact hs q hq
  · obtain ⟨q, hq, rfl⟩ := List.mem_map.1 hr
    split
    · exact hf q hq
    · exact handed_of_mem hq

theorem inherits_replace (s : Store) (key : Nat) (hc : s.TokensApart → c.tokens = none) :
    Inherits come s (s.modify key fun e => e.replace c) :=
  s.inherits_modify key (fun hs _ _ => hc hs) fun _ _ => .inl rfl

theorem inherits_withoutFile (s : Store) (key : Nat) (filename : String) :
    Inherits come s (s.modify key (Record.withoutFile filename)) :=
  s.inherits_modify key id fun q hq =>
    .inr ⟨q, (q.component.removeFormatsOf filename).formats, .inl hq, rfl⟩

theorem inherits_insert (s : Store) (c : Component) : Inherits (· = c) s (s.insert c) := by
  refine .of_relinked (s.context_insert c) fun r hr => ?_
  obtain ⟨q, hq | rfl, hlink⟩ := relinked_insert s c r hr
  · exact ⟨q, _, _, hlink, handed_of_mem hq, fun hs => hs q hq⟩
  · have hbrought : s.Handed (· = c) (.ofComponent s.nextKey c) :=
      .inr ⟨_, c.formats, .inr ⟨s.nextKey, c, rfl, rfl⟩, rfl⟩
    exact ⟨_, _, _, hlink, hbrought, fun _ => rfl⟩

theorem inherits_refresh (s : Store) (key : Nat) (previous : String) :
    Inherits come s (s.refresh key previous) := by
  cases hc : s.find? key with
  | none =>
    rw [refresh_of_none hc]
    exact .refl s
  | some c =>
    refine .of_relinked (s.context_refresh key previous) fun r hr => ?_
    obtain ⟨q, hq, hlink⟩ := relinked_refresh hc previous r hr
    exact ⟨q, _, _, hlink, handed_of_mem hq, fun hs => hs q hq⟩

theorem inherits_removeKey (s : Store) (key : Nat) : Inherits come s (s.removeKey key) := by
  cases hc : s.find? key with
  | none =>
    rw [removeKey_of_none hc]
    exact .refl s
  | some c =>
    refine .of_relinked (s.context_removeKey key) fun r hr => ?_
    obtain ⟨q, hq, -, hlink⟩ := relinked_removeKey hc r hr
    exact ⟨q, _, _, hlink, handed_of_mem hq, fun hs => hs q hq⟩

theorem inherits_update (s : Store) (key : Nat) {f : Component → Component}
    (hf : ∀ c, s.find? key = some c → s.TokensApart → (f c).tokens = none) :
    Inherits come s (s.update key f) := by
  cases hc : s.find? key with
  | none =>
    rw [update_of_none hc]
    exact .refl s
  | some c =>
    rw [update_eq hc]
    exact (s.inherits_replace key (hf c hc)).trans (inherits_refresh _ _ _)

theorem inherits_given (s : Store) (patch : Component) (keys : List Nat) :
    Inherits come s (s.given patch keys) := by
  induction keys generalizing s with
  | nil => exact .refl s
  | cons key keys ih => exact (s.inherits_update key fun _ _ _ => rfl).trans (ih _)

theorem Encounter.inherits (h : Encounter s c t) : Inherits (· = c) s t := by
  have hstored {key : Nat} {old : Component} (hold : s.find? key = some old)
      (hs : s.TokensApart) : (s.verdict old c).stored.tokens = none :=
    tokens_reconcile_stored (hs.find? hold)
  cases h with
  | inserted _ => exact s.inherits_insert c
  | @merged key old hmeets => exact s.inherits_update _ fun _ _ => hstored hmeets.found
  | @replaced key old hmeets =>
    have hincoming : (s.verdict old c).incoming.tokens = none :=
      tokens_reconcile_incoming hmeets.survivor
    refine ((s.inherits_replace _ (hstored hmeets.found)).trans (inherits_removeKey _ _)).trans
      ((inherits_insert _ _).mono ?_)
    rintro d rfl
    exact .inr hincoming

theorem inherits_add (s : Store) (c : Component) : Inherits (· = c) s (s.add c) := by
  have haside (pool : Pool) : Inherits (· = c) s { s with pool } := .of_records rfl rfl
  cases hid : c.id with
  | none =>
    rw [add_of_no_id hid]
    exact .refl s
  | some id =>
    cases hpatch : c.mergeKind.isPatch with
    | true =>
      rw [s.add_patch_eq hid hpatch]
      have hgiven : Inherits (· = c) (s.pooled c)
          ((s.pooled c).given c ((s.pooled c).targets id c)) := inherits_given _ _ _
      exact ((haside _).trans hgiven).trans (.of_records rfl rfl)
    | false =>
      obtain ⟨pool, hencounter⟩ := s.encounter_add hid hpatch
      refine (haside pool).trans (hencounter.inherits.mono ?_)
      rintro d rfl
      exact tokens_foldl_applyPatch _ c

theorem inherits_stripKey (filename : String) (count : Nat) (s : Store) (key : Nat) :
    Inherits come s (stripKey filename (count, s) key).2 := by
  have hstripped : Inherits come s (s.modify key (Record.withoutFile filename)) :=
    s.inherits_withoutFile key filename
  unfold stripKey
  cases hc : s.find? key with
  | none => exact .refl s
  | some c =>
    simp only
    split
    · exact hstripped.trans (inherits_removeKey _ _)
    · exact hstripped.trans (inherits_refresh _ _ _)

theorem inherits_attachAddons (s : Store) : Inherits come s s.attachAddons.2 := by
  refine .of_relinked s.context_attachAddons fun r hr => ?_
  obtain ⟨q, hq, hlink⟩ := relinked_attachAddons s r hr
  exact ⟨q, _, _, hlink, handed_of_mem hq, fun hs => hs q hq⟩

theorem inherits_byMetadata (s : Store) (key value : String) :
    Inherits come s (s.byMetadata key value).2 := by
  unfold byMetadata
  split
  · exact .refl s
  · exact .of_records rfl rfl

/-- Only building tokens makes some that nobody brought along. -/
theorem Move.inherits (k : Move come s t) : t = s.buildTokens ∨ Inherits come s t := by
  cases k with
  | aside | inhibit | release | forget => exact .inr (.of_records rfl rfl)
  | @add c hc => exact .inr ((s.inherits_add c).mono fun _ hd => .inl (hd ▸ hc))
  | remove key => exact .inr (s.inherits_removeKey key)
  | strip filename count key => exact .inr (inherits_stripKey filename count s key)
  | attachAddons => exact .inr s.inherits_attachAddons
  | buildTokens => exact .inl rfl
  | queryMetadata key value => exact .inr (s.inherits_byMetadata key value)

theorem TokensApart.move (h : s.TokensApart) (k : Move come s t) : t.TokensApart := by
  rcases k.inherits with rfl | hinherits
  · intro r hr
    obtain ⟨q, hq, rfl⟩ := List.mem_map.1 hr
    exact h q hq
  · exact hinherits.apart h

theorem TokensApart.moves (h : s.TokensApart) (k : Moves come s t) : t.TokensApart := by
  induction k with
  | refl => exact h
  | tail _ k ih => exact ih.move k

theorem TokensApart.course {adds : List Addition} (h : s.TokensApart) (k : Course s adds t) :
    t.TokensApart :=
  h.moves (k.moves (p := fun _ => True) fun _ _ => trivial)

theorem tokensApart_new (settings : Settings) (reader : Reader) :
    (new settings reader).TokensApart :=
  fun _ hr => absurd hr List.not_mem_nil

theorem tokensApart_run (settings : Settings) (reader : Reader) (ops : List Operation) :
    ((new settings reader).run ops).TokensApart := by
  have hany : ∀ a ∈ runAdditions (new settings reader) ops, True := fun _ _ => trivial
  exact run_course_induction (fun _ _ _ k _ h => h.course k) hany (fun _ _ _ _ h => h)
    (tokensApart_new settings reader)

theorem Reachable.tokensApart {settings : Settings} {reader : Reader}
    (h : Reachable settings reader s) : s.TokensApart := by
  obtain ⟨ops, -, rfl⟩ := h
  exact tokensApart_run settings reader ops

/-- The tokens that are built for records without attachments are those that would be built now. -/
def FreshAlone (s : Store) : Prop :=
  ∀ r ∈ s.records, r.component.addons = [] → ∀ tokens, r.tokens = some tokens →
    tokens = .build s.context r.component []

theorem FreshAlone.inherits (h : s.FreshAlone) (k : Inherits come s t)
    (hcome : ∀ c, come c → c.FreshIn s.context) : t.FreshAlone := by
  intro r hr hnone tokens htokens
  rw [k.context]
  rcases k.records r hr with hvoid | ⟨q, formats, hq | ⟨key, c, hc, rfl⟩, rfl⟩
  · rw [hvoid] at htokens
    cases htokens
  · rw [h q hq hnone tokens htokens]
    rfl
  · rw [hcome c hc hnone tokens htokens]
    rfl

theorem addonsOf_of_nil (h : c.addons = []) : s.addonsOf c = [] := by
  unfold addonsOf
  rw [h, List.filterMap_nil]

theorem FreshAlone.buildTokens (h : s.FreshAlone) : s.buildTokens.FreshAlone := by
  intro r hr hnone tokens htokens
  obtain ⟨q, hq, rfl⟩ := List.mem_map.1 hr
  have hbuilt : s.tokensOf q = tokens := Option.some.inj htokens
  rw [← hbuilt]
  unfold tokensOf
  rw [addonsOf_of_nil hnone]
  cases hcached : q.tokens with
  | none => rfl
  | some cached => exact h q hq hnone cached hcached

/-- What such a catalog gives out brings fresh tokens to those with the same search context. -/
theorem FreshAlone.freshIn_copy (h : s.FreshAlone) {r : Record} (hr : r ∈ s.records) :
    r.copy.FreshIn s.context :=
  fun hnone tokens htokens => h r hr hnone tokens htokens

theorem FreshAlone.move (h : s.FreshAlone) (k : Move come s t)
    (hcome : ∀ c, come c → c.FreshIn s.context) : t.FreshAlone := by
  rcases k.inherits with rfl | hinherits
  · exact h.buildTokens
  · exact h.inherits hinherits hcome

theorem FreshAlone.course {adds : List Addition} (h : s.FreshAlone) (k : Course s adds t)
    (hadds : ∀ a ∈ adds, a.2.FreshIn a.1.context) : t.FreshAlone := by
  induction k with
  | refl => exact h
  | move _ k ih => exact (ih hadds).move k fun _ => False.elim
  | @add adds t _ c ih =>
    have hbefore := ih fun a ha => hadds a (List.mem_append_left _ ha)
    have hc : c.FreshIn t.context :=
      hadds (t, c) (List.mem_append_right _ List.mem_cons_self)
    exact hbefore.inherits (t.inherits_add c) fun _ hd => hd ▸ hc

/-- Attaching all addons anew leaves no stale tokens: those of records with attachments are void. -/
theorem FreshAlone.fresh_attachAddons (h : s.FreshAlone) : s.attachAddons.2.Fresh := by
  have hinherits : Inherits (fun _ => False) s s.attachAddons.2 := s.inherits_attachAddons
  have hafter := h.inherits hinherits fun _ => False.elim
  intro r hr tokens htokens
  obtain ⟨q, -, hlink⟩ := relinked_attachAddons s r hr
  rcases hlink.tokens with ⟨rfl, hno⟩ | ⟨hvoid, -⟩
  · have hnone : r.component.addons = [] :=
      List.eq_nil_iff_forall_not_mem.2 fun u hu => hno u hu trivial
    rw [addonsOf_of_nil hnone]
    exact hafter r hr hnone tokens htokens
  · rw [hvoid] at htokens
    cases htokens

/-- A catalog that operations lead to, in which components that come in without attachments have no
tokens but those that would be built, and the stemming changes only while no tokens are built. -/
def Steady (s : Store) : Prop :=
  ∃ settings reader ops, reader.Proper ∧ (∀ op ∈ ops, Operation.Proper op) ∧
    (∀ a ∈ runAdditions (new settings reader) ops, a.2.FreshIn a.1.context) ∧
    (∀ done stem later, ops = done ++ .withStemmer stem :: later →
      ∀ r ∈ ((new settings reader).run done).records, r.tokens = none) ∧
    s = (new settings reader).run ops

theorem steady_run (settings : Settings) {reader : Reader} (h : reader.Proper)
    (ops : List Operation) (hops : ∀ op ∈ ops, Operation.Proper op)
    (hadds : ∀ a ∈ runAdditions (new settings reader) ops, a.2.FreshIn a.1.context)
    (hstem : ∀ stem, .withStemmer stem ∉ ops) : ((new settings reader).run ops).Steady := by
  refine ⟨settings, reader, ops, h, hops, hadds, ?_, rfl⟩
  intro done stem later hsplit
  exact absurd (hsplit ▸ List.mem_append_right done List.mem_cons_self) (hstem stem)

theorem Steady.uniquelyIndexed (h : s.Steady) : s.UniquelyIndexed := by
  obtain ⟨settings, reader, ops, hreader, hops, -, -, hs⟩ := h
  exact Reachable.uniquelyIndexed hreader ⟨ops, hops, hs⟩

theorem Steady.freshAlone (h : s.Steady) : s.FreshAlone := by
  obtain ⟨settings, reader, ops, -, -, hadds, hstem, rfl⟩ := h
  have hnew : (new settings reader).FreshAlone := fun r hr => absurd hr List.not_mem_nil
  refine run_course_induction (fun _ _ _ k hgood h => h.course k hgood) hadds ?_ hnew
  intro done stem later hsplit _ r hr _ tokens htokens
  rw [hstem done stem later hsplit r hr] at htokens
  cases htokens

theorem Steady.add (h : s.Steady) (hproper : c.Proper) (hfresh : c.FreshIn s.context) :
    (s.add c).Steady := by
  obtain ⟨settings, reader, ops, hreader, hops, hadds, hstem, rfl⟩ := h
  have hrun : (new settings reader).run (ops ++ [.add c]) = ((new settings reader).run ops).add c :=
    run_append _ ops [.add c]
  refine ⟨settings, reader, ops ++ [.add c], hreader, ?_, ?_, ?_, hrun.symm⟩
  · intro op hop
    rcases List.mem_append.1 hop with hop | hop
    · exact hops op hop
    · rw [List.mem_singleton.1 hop]
      exact hproper
  · rw [runAdditions_append]
    exact List.forall_mem_append.2 ⟨hadds, by simpa [runAdditions, operationAdditions] using hfresh⟩
  · intro done stem later hsplit
    -- the addition is the last operation
    rcases List.eq_nil_or_concat later with rfl | ⟨rest, op, rfl⟩
    · have hlast := (List.append_inj' hsplit rfl).2
      cases List.head_eq_of_cons_eq hlast
    · rw [List.concat_eq_append, ← List.cons_append, ← List.append_assoc] at hsplit
      exact hstem done stem rest (List.append_inj' hsplit rfl).1

theorem context_adds (s : Store) (cs : List Component) : (cs.foldl add s).context = s.context := by
  induction cs generalizing s with
  | nil => rfl
  | cons c cs ih => exact (ih _).trans (s.inherits_add c).context

theorem Steady.adds (h : s.Steady) (hproper : ∀ c ∈ cs, c.Proper)
    (hfresh : ∀ c ∈ cs, c.FreshIn s.context) : (cs.foldl Store.add s).Steady := by
  induction cs generalizing s with
  | nil => exact h
  | cons c cs ih =>
    obtain ⟨hc, hcs⟩ := List.forall_mem_cons.1 hproper
    obtain ⟨hcfresh, hcsfresh⟩ := List.forall_mem_cons.1 hfresh
    refine ih (h.add hc hcfresh) hcs ?_
    rw [(s.inherits_add c).context]
    exact hcsfresh

end Store

end SoftwareCatalog
