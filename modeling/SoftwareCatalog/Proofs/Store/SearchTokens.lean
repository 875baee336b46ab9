import SoftwareCatalog.Proofs.Search.Ranking
import SoftwareCatalog.Proofs.Store.Conjunction
import SoftwareCatalog.Proofs.Store.Freshness
import SoftwareCatalog.Proofs.Store.Patching
import SoftwareCatalog.Proofs.Store.Sparse

namespace SoftwareCatalog.Store

variable {s t : Store} {key : Nat} {c old : Component} {x : String}

theorem Current.updated (h : s.Current) (hold : s.find? key = some old)
    {f : Component → Component} (hupholds : old.Upholds (f old)) (hid : (f old).id = old.id)
    (haddons : (f old).addons = old.addons) (hdistinct : (s.update key f).AddonsDistinct) :
    (s.update key f).Current := by
  have k : Altered key (fun _ => (f old).bare) old.bare s (s.update key f) := altered_update hold f
  rw [update_eq hold] at hdistinct k ⊢
  apply h.refreshed hold (find?_replaced hold (f old)) ?_ hupholds hid rfl k hdistinct
  intro q hq
  exact .inl ⟨rfl, haddons.trans (congrArg Component.addons hq.symm),
    hid.trans (congrArg Component.id hq.symm)⟩

/-- A change in place that leaves kinds and unique IDs brings no addons together. -/
theorem AddonsDistinct.altered (h : s.AddonsDistinct) (hkeyed : s.Keyed)
    {g : Component → Component} (hold : (key, old) ∈ s.entries) (hkind : (g old).kind = old.kind)
    (huid : (g old).uniqueId = old.uniqueId) (k : Altered key g old s t) : t.AddonsDistinct := by
  have hbefore : ∀ e ∈ t.entries, ∃ d ∈ s.entries, d.1 = e.1 ∧ d.2.kind = e.2.kind ∧
      d.2.uniqueId = e.2.uniqueId := by
    intro e he
    rcases (k.mem_iff hkeyed hold).1 he with ⟨hkey, hg⟩ | ⟨-, hin⟩
    · exact ⟨_, hold, hkey.symm, by rw [hg, hkind], by rw [hg, huid]⟩
    · exact ⟨e, hin, rfl, rfl, rfl⟩
  intro d hd e he hdkind heq
  obtain ⟨d', hd', hdkey, hdkind', hduid⟩ := hbefore d hd
  obtain ⟨e', he', hekey, -, heuid⟩ := hbefore e he
  rw [← hdkey, ← hekey]
  exact h d' hd' e' he' (hdkind'.trans hdkind) (heuid.trans (heq.trans hduid.symm))

theorem Current.stripKey (h : s.Current) (filename : String) (count key : Nat) :
    (stripKey filename (count, s) key).2.Current := by
  unfold Store.stripKey
  cases hold : s.find? key with
  | none => exact h
  | some old =>
    have hstripped := find?_withoutFile hold filename
    have hupholds : old.Upholds (old.removeFormatsOf filename) := .refl old
    have hreworked (q : Record) : Reworked q (q.withoutFile filename) :=
      .inr ⟨(q.component.removeFormatsOf filename).formats, rfl⟩
    simp only
    split
    · exact h.removed hold hstripped (fun _ => rfl) hupholds (fun _ => rfl) rfl
    · have k : Altered key (·.removeFormatsOf filename) old.bare s
          ((s.modify key (Record.withoutFile filename)).refresh key old.uniqueId) :=
        altered_refresh hstripped (fun _ => rfl) (fun _ => rfl) rfl
      have hkind : (old.bare.removeFormatsOf filename).kind = old.bare.kind := rfl
      have huid : (old.bare.removeFormatsOf filename).uniqueId = old.bare.uniqueId := rfl
      have hdistinct := h.attached.distinct.altered (g := (·.removeFormatsOf filename))
        h.attached.indexed.keyed (mem_entries_of_find? hold) hkind huid k
      exact h.refreshed hold hstripped (fun q _ => hreworked q) hupholds rfl rfl k hdistinct

/-- Where nothing comes in, tokens stay fresh. -/
theorem Current.move (h : s.Current) (k : Move (fun _ => False) s t) : t.Current := by
  cases k with
  | aside | inhibit | release => exact h.same ⟨rfl, rfl, rfl, rfl, rfl, rfl⟩ rfl rfl
  | add hno => exact hno.elim
  | remove key =>
    cases hold : s.find? key with
    | none =>
      rw [removeKey_of_none hold]
      exact h
    | some old =>
      have hsame : s.modify key id = s := by simp [modify]
      have hfound : (s.modify key id).find? key = some old := by rw [hsame, hold]
      rw [← hsame]
      exact h.removed hold hfound (fun _ => rfl) (.refl old) (fun _ => rfl) rfl
  | strip filename count key => exact h.stripKey filename count key
  | forget _ => exact h.same ⟨rfl, rfl, rfl, rfl, rfl, rfl⟩ rfl rfl
  | attachAddons => exact h.attachAddons
  | buildTokens => exact h.buildTokens
  | queryMetadata key value =>
    apply h.same (s.sameCatalog_byMetadata key value).sameIndices
    · unfold byMetadata
      split <;> rfl
    · unfold byMetadata
      split <;> rfl

/-- Adding a component takes the ground from attachments, or brings along what has none. -/
inductive Unsettles (s : Store) (c : Component) : Prop
  /-- A component that is no patch comes to share a unique ID with another one, and one of both is
  an addon. -/
  | collides (hpatch : c.mergeKind.isPatch = false) (h : ¬ (s.add c).AddonsDistinct)
  /-- An addon that gives way to the component lost the unique ID by which it is attached. -/
  | abandons {id : String} {key : Nat} {old : Component} (hid : c.id = some id)
    (hpatch : c.mergeKind.isPatch = false) (hkey : s.existing? (s.patched id c) = some key)
    (hold : s.find? key = some old)
    (hgoes : (reconcile s.settings.add.preferLocal old (s.patched id c)).survivor = .incoming)
    (hkind : old.kind = .addon)
    (huid : (reconcile s.settings.add.preferLocal old (s.patched id c)).stored.uniqueId ≠
      old.uniqueId)
  /-- A patch makes components share a unique ID, and one of them is an addon. -/
  | spreads {id : String} {done later : List Nat} (hid : c.id = some id)
    (hpatch : c.mergeKind.isPatch = true) (htargets : s.targets id c = done ++ later)
    (h : ¬ ((s.pooled c).given c done).AddonsDistinct)
  /-- The component brings attachments along that nothing supports, and is stored with them. -/
  | brings {id u : String} (hid : c.id = some id) (hpatch : c.mergeKind.isPatch = false)
    (hstored : ∀ key old, ¬ s.Meets (s.patched id c) key old .stored) (hu : u ∈ c.addons)
    (hno : ¬ (s.add c).Supports c u)
  /-- The component brings tokens along, is stored with them as it is, and others would be built. -/
  | outdated {id : String} {tokens : Search.TokenCache} (hid : c.id = some id)
    (hpatch : c.mergeKind.isPatch = false)
    (hnew : ∀ key old survivor, ¬ s.Meets (s.patched id c) key old survivor)
    (htokens : (s.patched id c).tokens = some tokens)
    (hstale : tokens ≠
      .build s.context (s.patched id c) ((s.add c).addonsOf (s.patched id c)))
  /-- A patch takes an addon away from what it extends. -/
  | uproots {id : String} {done later : List Nat} {key : Nat} {old : Component}
    (hid : c.id = some id) (hpatch : c.mergeKind.isPatch = true)
    (htargets : s.targets id c = done ++ key :: later)
    (hold : ((s.pooled c).given c done).find? key = some old) (h : Uproots c old)

/-- Nothing is unsettled where no other record has the unique ID of an addon, the record that a
component meets stays, and the component brings neither attachments nor tokens along. -/
theorem not_unsettles_of_stays {id : String} (hid : c.id = some id)
    (hpatch : c.mergeKind.isPatch = false) (haddons : c.addons = []) (htokens : c.tokens = none)
    (hdistinct : (s.add c).AddonsDistinct)
    (hstays : ∀ old ∈ (s.existing? (s.patched id c)).bind s.find?,
      (reconcile s.settings.add.preferLocal old (s.patched id c)).survivor = .stored) :
    ¬ Unsettles s c := by
  intro h
  cases h with
  | collides _ hcollides => exact hcollides hdistinct
  | abandons hid' _ hkey hold hgoes =>
    obtain rfl := Option.some.inj (hid.symm.trans hid')
    have hstays := hstays _ (Option.bind_eq_some_iff.2 ⟨_, hkey, hold⟩)
    rw [hgoes] at hstays
    cases hstays
  | spreads _ hpatch' =>
    rw [hpatch] at hpatch'
    cases hpatch'
  | brings _ _ _ hu =>
    rw [haddons] at hu
    cases hu
  | outdated _ _ _ hbrought =>
    unfold patched at hbrought
    rcases tokens_foldl_applyPatch (s.patchesFor _) c with hsame | hvoid
    · rw [hsame, htokens] at hbrought
      cases hbrought
    · rw [hvoid] at hbrought
      cases hbrought
  | uproots _ hpatch' =>
    rw [hpatch] at hpatch'
    cases hpatch'

theorem Current.given (h : s.Current) {patch : Component} {keys : List Nat}
    (hdistinct : ∀ done later, keys = done ++ later → (s.given patch done).AddonsDistinct)
    (hroots : ∀ done key later old, keys = done ++ key :: later →
      (s.given patch done).find? key = some old → ¬ Uproots patch old) :
    (s.given patch keys).Current := by
  induction keys generalizing s with
  | nil => exact h
  | cons key keys ih =>
    have hfirst : (s.given patch [key]).Current := by
      have hdistinct' := hdistinct [key] keys rfl
      cases hold : s.find? key with
      | none =>
        have hsame : s.given patch [key] = s := update_of_none hold _
        rw [hsame]
        exact h
      | some old =>
        exact h.updated hold (upholds_patch (hroots [] key keys old rfl hold)) rfl rfl hdistinct'
    apply ih hfirst
    · intro done later hsplit
      exact hdistinct (key :: done) later (by rw [hsplit, List.cons_append])
    · intro done key' later old hsplit
      exact hroots (key :: done) key' later old (by rw [hsplit, List.cons_append])

theorem Current.addPatch {id : String} {patch : Component}
    (h : (s.given patch (s.targets id patch)).Current) : (s.addPatch id patch).Current :=
  h.same (sameIndices_patches _ _) rfl rfl

theorem Current.encounter (h : s.Current) (k : Encounter s c t) (hindexed : t.WellIndexed)
    (hdistinct : t.AddonsDistinct)
    (hbrings : (∀ key old, ¬ s.Meets c key old .stored) → ∀ u ∈ c.addons, t.Supports c u)
    (htokens : (∀ key old survivor, ¬ s.Meets c key old survivor) →
      ∀ tokens, c.tokens = some tokens → tokens = .build s.context c (t.addonsOf c))
    (hstays : ∀ key old, s.Meets c key old .incoming → old.kind = .addon →
      (s.verdict old c).stored.uniqueId = old.uniqueId) : t.Current := by
  cases k with
  | inserted hnone =>
    have hno := not_meets_of_none hnone
    exact h.insert (hbrings fun _ _ => hno _ _ _) (htokens hno) hindexed hdistinct
  | @merged key old k =>
    exact h.updated k.found (upholds_reconcile_stored _ old c) (id_reconcile_stored _ old c)
      (addons_reconcile_stored _ old c) hdistinct
  | @replaced key old k =>
    have hrest := h.removed k.found (find?_replaced k.found _) (fun _ => rfl)
      (upholds_reconcile_stored _ old c) (hstays key old k) (id_reconcile_stored _ old c)
    have hid : (s.verdict old c).incoming.id = c.id := id_reconcile_incoming _ old c
    have haddons : (s.verdict old c).incoming.addons = c.addons :=
      addons_reconcile_incoming _ old c
    have hvoid : (s.verdict old c).incoming.tokens = none := tokens_reconcile_incoming k.survivor
    refine hrest.insert ?_ ?_ hindexed hdistinct
    · intro u hu
      exact (hbrings (k.ne nofun) u (haddons ▸ hu)).congr hid
    · intro tokens hbrought
      rw [hvoid] at hbrought
      cases hbrought

/-- Adding a component that does not unsettle attachments keeps them in order, and tokens fresh. -/
theorem Current.add (h : s.Current) (hproper : c.Proper) (hcalm : ¬ Unsettles s c) :
    (s.add c).Current := by
  cases hid : c.id with
  | none =>
    rw [add_of_no_id hid]
    exact h
  | some id =>
    have hindexed : (s.add c).WellIndexed := h.attached.indexed.step (.add hproper)
    cases hpatch : c.mergeKind.isPatch with
    | true =>
      have hpooled : (s.pooled c).Current := by
        unfold pooled
        exact h.same (s.sameCatalog_internAll c.pooledTexts).sameIndices rfl rfl
      have hgiven : ((s.pooled c).given c ((s.pooled c).targets id c)).Current := by
        rw [s.targets_pooled]
        apply hpooled.given
        · intro done later htargets
          by_contra hcollides
          exact hcalm (.spreads hid hpatch htargets hcollides)
        · intro done key later old htargets hold huproots
          exact hcalm (.uproots hid hpatch htargets hold huproots)
      rw [s.add_patch_eq hid hpatch]
      exact hgiven.addPatch
    | false =>
      have hdistinct : (s.add c).AddonsDistinct := by
        by_contra hcollides
        exact hcalm (.collides hpatch hcollides)
      obtain ⟨pool, hencounter⟩ := s.encounter_add hid hpatch
      have hpooled : ({ s with pool } : Store).Current :=
        h.same ⟨rfl, rfl, rfl, rfl, rfl, rfl⟩ rfl rfl
      have haddons : (s.patched id c).addons = c.addons := addons_foldl_applyPatch _ _
      have hsame : (s.patched id c).id = c.id := (sameSource_foldl_applyPatch _ c).id
      apply hpooled.encounter hencounter hindexed hdistinct
      · simp only [meets_pool_iff, haddons]
        intro hstored u hu
        by_contra hno
        exact hcalm (.brings hid hpatch hstored hu fun k => hno (k.congr hsame))
      · simp only [meets_pool_iff]
        intro hnew tokens hbrought
        by_contra hstale
        exact hcalm (.outdated hid hpatch hnew hbrought hstale)
      · intro key old hmeets hkind
        by_contra huid
        exact hcalm (.abandons hid hpatch hmeets.existing hmeets.found hmeets.survivor hkind huid)

theorem Current.course {adds : List Addition} (h : s.Current) (k : Course s adds t)
    (hadds : ∀ a ∈ adds, a.2.Proper ∧ ¬ Unsettles a.1 a.2) : t.Current := by
  induction k with
  | refl => exact h
  | move _ k ih => exact (ih hadds).move k
  | @add adds t _ c ih =>
    have hbefore := ih fun a ha => hadds a (List.mem_append_left _ ha)
    obtain ⟨hproper, hcalm⟩ := hadds (t, c) (List.mem_append_right _ List.mem_cons_self)
    exact hbefore.add hproper hcalm

theorem Current.withStemmer (h : s.Current) (hnone : ∀ r ∈ s.records, r.tokens = none)
    (stem : Stem.Stemmer) : (s.withStemmer stem).Current where
  attached := ⟨h.attached.indexed.same (s.sameCatalog_withStemmer stem).sameIndices,
    h.attached.distinct, h.attached.led, h.attached.supported⟩
  fresh r hr tokens htokens := by
    rw [hnone r hr] at htokens
    cases htokens

theorem Current.run (h : s.Current) {ops : List Operation}
    (hadds : ∀ a ∈ s.runAdditions ops, a.2.Proper ∧ ¬ Unsettles a.1 a.2)
    (hstem : ∀ done stem later, ops = done ++ .withStemmer stem :: later →
      ∀ r ∈ (s.run done).records, r.tokens = none) : (s.run ops).Current :=
  run_course_induction (fun _ _ _ k hgood h => h.course k hgood) hadds
    (fun done stem later hsplit hdone => hdone.withStemmer (hstem done stem later hsplit) stem) h

theorem current_new (settings : Settings) (reader : Reader) : (new settings reader).Current where
  attached := by
    refine ⟨wellIndexed_new settings reader, ?_, ?_, ?_⟩
    · intro d hd
      cases hd
    · intro e he
      cases he
    · intro r hr
      cases hr
  fresh r hr := by cases hr

instance (s : Store) : Decidable s.Fresh :=
  inferInstanceAs (Decidable (∀ r ∈ s.records, ∀ tokens ∈ r.tokens,
    tokens = .build s.context r.component (s.addonsOf r.component)))

theorem mem_search {query : String} {hit : Search.Hit} : hit ∈ (s.search query).1 ↔
    s.context.queryTokens query ≠ [] ∧
    ∃ r ∈ s.records, s.hit? (s.context.queryTokens query) r = some hit := by
  rw [search_eq, Search.Hit.mem_rank, List.mem_filterMap]
  constructor
  · rintro ⟨r, hr, hhit⟩
    have hpos := (hit?_eq_some_iff.1 hhit).1
    exact ⟨(Search.TokenCache.scoreAll_pos_iff.1 hpos).1, r, hr, hhit⟩
  · exact And.right

/-- Where tokens are fresh, it does not matter to a search which of them are built. -/
theorem Fresh.search_sparse (h : s.Fresh) (keep : Nat → Bool) (query : String) :
    ((s.sparse keep).search query).1 = (s.search query).1 := by
  have haddons (c : Component) : (s.sparse keep).addonsOf c = s.addonsOf c := by
    unfold addonsOf
    rw [funext s.find?_sparse]
    rfl
  have htokens : ∀ r ∈ s.records, (s.sparse keep).tokensOf (r.sparse keep) = s.tokensOf r := by
    intro r hr
    rw [h.tokensOf hr]
    unfold Store.tokensOf
    rw [haddons]
    cases hcached : r.tokens with
    | none => simp [Record.sparse, hcached, sparse]
    | some cached =>
      have hfresh := h r hr cached hcached
      cases hkept : keep r.key <;>
        simp [Record.sparse, Option.filter, hcached, hkept, hfresh, sparse]
  have hhits : ∀ r ∈ s.records, (s.sparse keep).hitOf? query (r.sparse keep) = s.hitOf? query r := by
    intro r hr
    unfold hitOf? hit?
    rw [htokens r hr]
    rfl
  have hrecords : (s.sparse keep).records = s.records.map (Record.sparse keep) := rfl
  rw [s.search_eq, (s.sparse keep).search_eq, hrecords, List.filterMap_map, Function.comp_def,
    List.filterMap_congr hhits]

/-- Tokens are never stale, and a search finds the same whether or not others were made before, in
every catalog that operations lead to in which no addition unsettles attachments or brings stale
tokens along, and the stemming changes only where no tokens are built. -/
theorem tokens_fresh {settings : Settings} {reader : Reader} {ops : List Operation}
    (hadds : ∀ a ∈ runAdditions (new settings reader) ops, a.2.Proper ∧ ¬ Unsettles a.1 a.2)
    (hstem : ∀ done stem later, ops = done ++ .withStemmer stem :: later →
      ∀ r ∈ ((new settings reader).run done).records, r.tokens = none) :
    (∀ r ∈ ((new settings reader).run ops).records, ∀ tokens, r.tokens = some tokens →
      tokens = .build ((new settings reader).run ops).context r.component
        (((new settings reader).run ops).addonsOf r.component)) ∧
    ∀ query, (((new settings reader).run ops).search query).1 =
      (((new settings reader).run (ops.filter (!·.searches))).search query).1 := by
  have hcurrent : ∀ done later, ops = done ++ later →
      ((new settings reader).run done).Current := by
    rintro done later rfl
    refine (current_new settings reader).run ?_ ?_
    · intro a ha
      rw [runAdditions_append] at hadds
      exact hadds a (List.mem_append_left _ ha)
    · intro before stem after hsplit
      exact hstem before stem (after ++ later) (by rw [hsplit, List.append_assoc, List.cons_append])
  have hfresh := (hcurrent ops [] (List.append_nil ops).symm).fresh
  have hkeeps : (new settings reader).Keeps fun _ => true := fun _ _ => rfl
  obtain ⟨kept, hunsearched⟩ := exists_sparse_run hkeeps fun done later hsplit =>
    (hcurrent done later hsplit).attached.indexed.keyed
  have hempty : (new settings reader).sparse (fun _ => true) = new settings reader := rfl
  rw [hempty] at hunsearched
  refine ⟨hfresh, fun query => ?_⟩
  rw [hunsearched, hfresh.search_sparse]

/-- Settings under which words stay as they are. -/
def unstemmed : Settings := ⟨{}, {}, ⟨["en"], 4, false, 3⟩⟩

/-- A tool that plugins can extend. -/
def extensibleTool : Component := Component.ofId "org.example.Tool"

/-- A plugin of the tool. -/
def plugin : Component :=
  { Component.ofId "org.example.Plugin" with
    kind := .addon, extendedIds := ["org.example.Tool"] }

/-- The plugin, now with a keyword. -/
def negativesPlugin : Component := plugin.addKeyword (some "en") "negatives"

/-- A plugin that comes again, with a keyword, is found after a search for the tool as without. -/
theorem search_plugin :
    (((new unstemmed Reader.any).run [.add extensibleTool, .add plugin, .search "tool",
      .add negativesPlugin]).search "negatives").1 =
    (((new unstemmed Reader.any).run [.add extensibleTool, .add plugin,
      .add negativesPlugin]).search "negatives").1 := by
  have hadds : ∀ a ∈ runAdditions (new unstemmed Reader.any)
      [.add extensibleTool, .add plugin, .search "tool", .add negativesPlugin],
      a.2.Proper ∧ ¬ Unsettles a.1 a.2 := by
    have htool : extensibleTool.id = some "org.example.Tool" := by decide +kernel
    have hplugin : plugin.id = some "org.example.Plugin" := by decide +kernel
    have hnegatives : negativesPlugin.id = some "org.example.Plugin" := hplugin
    intro a ha
    simp only [runAdditions, operationAdditions, List.cons_append, List.nil_append, List.mem_cons,
      List.not_mem_nil, or_false] at ha
    rcases ha with rfl | rfl | rfl
    · refine ⟨by decide +kernel, ?_⟩
      exact not_unsettles_of_stays htool rfl rfl rfl (by decide +kernel) (by decide +kernel)
    · refine ⟨by decide +kernel, ?_⟩
      exact not_unsettles_of_stays hplugin rfl rfl rfl (by decide +kernel) (by decide +kernel)
    · refine ⟨by decide +kernel, ?_⟩
      exact not_unsettles_of_stays hnegatives rfl rfl rfl (by decide +kernel) (by decide +kernel)
  have hstem : ∀ done stem later,
      [Operation.add extensibleTool, .add plugin, .search "tool", .add negativesPlugin] =
        done ++ .withStemmer stem :: later →
      ∀ r ∈ ((new unstemmed Reader.any).run done).records, r.tokens = none := by
    intro done stem later hsplit
    have hin : Operation.withStemmer stem ∈
        [Operation.add extensibleTool, .add plugin, .search "tool", .add negativesPlugin] := by
      rw [hsplit]
      exact List.mem_append_right done List.mem_cons_self
    simp at hin
  exact (tokens_fresh hadds hstem).2 "negatives"

/-- What comes in under the ID of the plugin, and says that it extends another tool. -/
def movedPlugin : Component :=
  { (Component.ofId "org.example.Plugin").addKeyword (some "en") "negatives" with
    mergeKind := .replace, extendedIds := ["org.example.Other"] }

/-- The tool keeps the plugin attached, but tokens that were built before do not show its
keyword. -/
theorem stale_after_moving :
    movedPlugin.Proper ∧ movedPlugin.addons = [] ∧
    ¬ ((new unstemmed Reader.any).run [.add extensibleTool, .add plugin, .buildTokens,
      .add movedPlugin]).Fresh ∧
    ⟨32, "*/*/*/*/org.example.Tool/*"⟩ ∉
      (((new unstemmed Reader.any).run [.add extensibleTool, .add plugin, .buildTokens,
        .add movedPlugin]).search "negatives").1 ∧
    ⟨32, "*/*/*/*/org.example.Tool/*"⟩ ∈
      (((new unstemmed Reader.any).run [.add extensibleTool, .add plugin,
        .add movedPlugin]).search "negatives").1 := by
  refine ⟨by decide +kernel, rfl, by decide +kernel, ?_, ?_⟩
  · rw [mem_search]
    decide +kernel
  · rw [mem_search]
    decide +kernel

/-- A viewer with a keyword in German. -/
def germanViewer : Component :=
  (Component.ofId "org.example.Viewer").addKeyword (some "de") "negative"

/-- The copies that a German catalog gives out of the viewer after it was searched. -/
def searchedViewers : List Component :=
  ((new ⟨{}, {}, ⟨["de"], 4, false, 3⟩⟩ Reader.any).run
    [.add germanViewer, .search "negative"]).records.map Record.copy

/-- A copy is the same component, but in a catalog with other locales it is found by the tokens that
it brings along. -/
theorem stale_copy :
    searchedViewers.map Component.untokened = [germanViewer] ∧
    ¬ ((new unstemmed Reader.any).addMany searchedViewers).Fresh ∧
    ⟨32, "*/*/*/*/org.example.Viewer/*"⟩ ∈
      (((new unstemmed Reader.any).addMany searchedViewers).search "negative").1 ∧
    ⟨32, "*/*/*/*/org.example.Viewer/*"⟩ ∉
      (((new unstemmed Reader.any).addMany [germanViewer]).search "negative").1 := by
  refine ⟨by decide +kernel, by decide +kernel, ?_, ?_⟩
  · rw [mem_search]
    decide +kernel
  · rw [mem_search]
    decide +kernel

end SoftwareCatalog.Store
