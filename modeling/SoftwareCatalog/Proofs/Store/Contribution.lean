import SoftwareCatalog.Proofs.Store.PrimaryIndex

namespace SoftwareCatalog.Store

/-- A property of components that attachments do not matter for. -/
def Plain (q : Component → Prop) : Prop := ∀ c : Component, q c.bare ↔ q c

/-- In `t` one component `d` stands for what came in and for the stored one `old` that it met, if
there was one; all others are as in `s`. -/
structure United (c d : Component) (old : Option Component) (s t : Store) : Prop where
  mem : ∃ k, (k, d.bare) ∈ t.entries
  others : ∀ e ∈ t.entries, e.2 = d.bare ∨ e ∈ s.entries
  stay : ∀ e ∈ s.entries, e ∈ t.entries ∨ ∃ o, old = some o ∧ e.2 = o.bare
  stored : ∀ o, old = some o → ∃ k, (k, o.bare) ∈ s.entries
  unites : ∀ q, Additive q → (q d ↔ (∃ o, old = some o ∧ q o) ∨ q c)

theorem Inserted.united {c : Component} {s t : Store} (h : Inserted c s t) :
    United c c none s t where
  mem := ⟨s.nextKey, h.mem_iff.2 (.inr ⟨rfl, rfl⟩)⟩
  others e he := by
    rcases h.mem_iff.1 he with hin | ⟨-, hnew⟩
    · exact .inr hin
    · exact .inl hnew
  stay e he := .inl (h.mem_iff.2 (.inl he))
  stored o ho := by cases ho
  unites q _ := by simp

/-- A component that comes in is united with the record that it meets. -/
theorem Met.united {c : Component} {s t : Store} (hs : s.Keyed) (h : Met c s t) :
    ∃ d old, United c d old s t := by
  cases h with
  | inserted _ h => exact ⟨c, none, h.united⟩
  | lost _ _ h => exact ⟨c, none, h.united⟩
  | @merged key old _ hold hstays h =>
    have hin := mem_entries_of_find? hold
    have hkept := Reconciled.kept_of_stored hstays
    refine ⟨(reconcile s.settings.add.preferLocal old c).kept, some old, ?_, ?_, ?_, ?_, ?_⟩
    · rw [hkept]
      exact ⟨key, (h.mem_iff hs hin).2 (.inl ⟨rfl, rfl⟩)⟩
    · intro e he
      rw [hkept]
      rcases (h.mem_iff hs hin).1 he with ⟨-, hnew⟩ | ⟨-, hstored⟩
      · exact .inl hnew
      · exact .inr hstored
    · intro e he
      by_cases hk : e.1 = key
      · exact .inr ⟨old, rfl, congrArg Prod.snd (hs.eq_of_key he hin hk)⟩
      · exact .inl ((h.mem_iff hs hin).2 (.inr ⟨hk, he⟩))
    · intro o ho
      exact ⟨key, Option.some.inj ho ▸ hin⟩
    · intro q hq
      simpa using kept_iff hq
  | @replaced key old rest _ hold hgoes hrest h =>
    have hin := mem_entries_of_find? hold
    have hkept := Reconciled.kept_of_incoming hgoes
    refine ⟨(reconcile s.settings.add.preferLocal old c).kept, some old, ?_, ?_, ?_, ?_, ?_⟩
    · rw [hkept]
      exact h.united.mem
    · intro e he
      rw [hkept]
      rcases h.united.others e he with hnew | hrested
      · exact .inl hnew
      · exact .inr (hrest.mem_iff.1 hrested).2
    · intro e he
      by_cases hk : e.1 = key
      · exact .inr ⟨old, rfl, congrArg Prod.snd (hs.eq_of_key he hin hk)⟩
      · have hrested : e ∈ rest.entries := hrest.mem_iff.2 ⟨hk, he⟩
        exact .inl (h.mem_iff.2 (.inl hrested))
    · intro o ho
      exact ⟨key, Option.some.inj ho ▸ hin⟩
    · intro q hq
      simpa using kept_iff hq

/-- What adds up is stored afterwards if it was stored before or came in. -/
theorem United.exists_iff {c d : Component} {old : Option Component} {s t : Store}
    (h : United c d old s t) {q : Component → Prop} (hq : Additive q) (hplain : Plain q) :
    (∃ e ∈ t.entries, q e.2) ↔ (∃ e ∈ s.entries, q e.2) ∨ q c := by
  constructor
  · intro hsome
    obtain ⟨e, he, hqe⟩ := hsome
    rcases h.others e he with heq | hin
    · rw [heq, hplain, h.unites q hq] at hqe
      rcases hqe with ⟨o, ho, hqo⟩ | hqc
      · obtain ⟨k, hk⟩ := h.stored o ho
        exact .inl ⟨_, hk, (hplain o).2 hqo⟩
      · exact .inr hqc
    · exact .inl ⟨e, hin, hqe⟩
  · intro hall
    obtain ⟨k, hk⟩ := h.mem
    rcases hall with ⟨e, he, hqe⟩ | hqc
    · rcases h.stay e he with hin | ⟨o, ho, heq⟩
      · exact ⟨e, hin, hqe⟩
      · rw [heq, hplain] at hqe
        exact ⟨_, hk, (hplain d).2 ((h.unites q hq).2 (.inl ⟨o, ho, hqe⟩))⟩
    · exact ⟨_, hk, (hplain d).2 ((h.unites q hq).2 (.inr hqc))⟩

/-- Some stored component has a format. -/
def Carries (s : Store) (f : Format) : Prop := ∃ c ∈ s.components, f ∈ c.formats

/-- Some stored component has a release with a version. -/
def CarriesVersion (s : Store) (v : String) : Prop := ∃ c ∈ s.components, v ∈ versions c.releases

theorem carries_iff {s : Store} {f : Format} : s.Carries f ↔ ∃ e ∈ s.entries, f ∈ e.2.formats :=
  mem_components (p := fun c => f ∈ c.formats) fun _ => Iff.rfl

theorem carriesVersion_iff {s : Store} {v : String} :
    s.CarriesVersion v ↔ ∃ e ∈ s.entries, v ∈ versions e.2.releases :=
  mem_components (p := fun c => v ∈ versions c.releases) fun _ => Iff.rfl

/-- Adding a component that describes software, as an encounter with the catalog. -/
theorem WellIndexed.united_add {s : Store} (hs : s.WellIndexed) {c : Component} {id : String}
    (hid : c.id = some id) (hc : c.mergeKind = .standalone) :
    ∃ d old, United (s.patched id c) d old s (s.add c) := by
  have hpatch : c.mergeKind.isPatch = false := by simp [hc, MergeKind.isPatch]
  exact (met_add s hid hpatch).united hs.keyed

theorem formats_patched (s : Store) (id : String) (c : Component) :
    (s.patched id c).formats = c.formats :=
  (sameSource_foldl_applyPatch (s.patchesFor id) c).formats

theorem WellIndexed.carries_add {s : Store} (hs : s.WellIndexed) {c : Component} {id : String}
    (hid : c.id = some id) (hc : c.mergeKind = .standalone) (f : Format) :
    (s.add c).Carries f ↔ s.Carries f ∨ f ∈ c.formats := by
  obtain ⟨d, old, h⟩ := hs.united_add hid hc
  rw [carries_iff, carries_iff, ← s.formats_patched id c]
  exact h.exists_iff (additive_format f) fun _ => Iff.rfl

theorem WellIndexed.carriesVersion_add {s : Store} (hs : s.WellIndexed) {c : Component}
    {id : String} (hid : c.id = some id) (hc : c.mergeKind = .standalone) {v : String}
    (h : s.CarriesVersion v) : (s.add c).CarriesVersion v := by
  obtain ⟨d, old, hunited⟩ := hs.united_add hid hc
  have hiff := hunited.exists_iff (additive_version v) fun _ => Iff.rfl
  rw [carriesVersion_iff] at h ⊢
  exact hiff.2 (.inl h)

/-- One record carries all that a component brings, unless a patch replaces its releases. -/
theorem WellIndexed.exists_holder {s : Store} (hs : s.WellIndexed) {c : Component} {id : String}
    (hid : c.id = some id) (hc : c.mergeKind = .standalone) :
    ∃ d ∈ (s.add c).components, (∀ f ∈ c.formats, f ∈ d.formats) ∧
      ((∀ p ∈ s.patchesFor id, p.mergeKind = .replace → p.releases = []) →
        ∀ v ∈ versions c.releases, v ∈ versions d.releases) := by
  obtain ⟨d, old, h⟩ := hs.united_add hid hc
  obtain ⟨k, hk⟩ := h.mem
  obtain ⟨r, hr, heq⟩ := List.mem_map.1 hk
  have hbare : r.component.bare = d.bare := congrArg Prod.snd heq
  have hformats : r.component.formats = d.formats := by
    rw [← r.component.bare_formats, hbare, d.bare_formats]
  have hreleases : r.component.releases = d.releases := by
    rw [← r.component.bare_releases, hbare, d.bare_releases]
  refine ⟨r.component, List.mem_map_of_mem hr, ?_, ?_⟩
  · intro f hf
    rw [hformats]
    apply (h.unites _ (additive_format f)).2
    right
    rw [s.formats_patched]
    exact hf
  · intro hpatches v hv
    rw [hreleases]
    apply (h.unites _ (additive_version v)).2
    right
    exact mem_versions_foldl_applyPatch hpatches hv

/-- A component that describes software and has a proper ID. -/
structure Standalone (c : Component) : Prop where
  id : ∃ x, c.id = some x ∧ x ≠ ""
  mergeKind : c.mergeKind = .standalone

theorem carries_adds {cs : List Component} (hcs : ∀ c ∈ cs, Standalone c) {s : Store}
    (hs : s.WellIndexed) (f : Format) :
    (cs.foldl add s).Carries f ↔ s.Carries f ∨ ∃ c ∈ cs, f ∈ c.formats := by
  induction cs generalizing s with
  | nil => simp
  | cons c cs ih =>
    have hc := hcs c List.mem_cons_self
    obtain ⟨x, hid, -⟩ := hc.id
    have hnext : (s.add c).WellIndexed := hs.step (.add (Component.proper_of_id hc.id))
    rw [List.foldl_cons, ih (fun d hd => hcs d (List.mem_cons_of_mem c hd)) hnext,
      hs.carries_add hid hc.mergeKind, or_assoc]
    simp only [List.mem_cons, exists_eq_or_imp]

/-- Adding a component loses no source: one record has all its formats and, unless a patch
replaces them, its versions, and all that was stored before still is. So no run of additions
loses a format. -/
theorem add_loses_no_source {settings : Settings} {reader : Reader} (hr : reader.Proper)
    {s : Store} (h : Reachable settings reader s) :
    (∀ (c : Component) (id : String), c.id = some id → c.mergeKind = .standalone →
      (∃ d ∈ (s.add c).components, (∀ f ∈ c.formats, f ∈ d.formats) ∧
        ((∀ p ∈ s.patchesFor id, p.mergeKind = .replace → p.releases = []) →
          ∀ v ∈ versions c.releases, v ∈ versions d.releases)) ∧
      (∀ f, s.Carries f → (s.add c).Carries f) ∧
      (∀ v, s.CarriesVersion v → (s.add c).CarriesVersion v)) ∧
    (∀ cs : List Component, (∀ c ∈ cs, Standalone c) → ∀ f,
      (s.Carries f ∨ ∃ c ∈ cs, f ∈ c.formats) → (cs.foldl add s).Carries f) := by
  have hs := h.wellIndexed hr
  refine ⟨?_, ?_⟩
  · intro c id hid hc
    refine ⟨hs.exists_holder hid hc, ?_, ?_⟩
    · intro f hf
      exact (hs.carries_add hid hc f).2 (.inl hf)
    · intro v hv
      exact hs.carriesVersion_add hid hc hv
  · intro cs hcs f hf
    exact (carries_adds hcs hs f).2 hf

/-- A tool as a file of a kind describes it. -/
def describedBy (kind : FormatKind) (filename : String) : Component :=
  (Component.ofId "org.example.Tool").addFormat ⟨kind, some filename⟩

/-- A catalog that a launcher came into still has it when its metadata came in as well. -/
theorem carries_launcher_after_metadata :
    Reader.any.Proper ∧
    (((new ⟨{}, {}, ⟨["en"], 4, true, 3⟩⟩ Reader.any).run
      [.add (describedBy .desktop "tool.desktop")]).add
        (describedBy .metaInfo "tool.metainfo.xml")).Carries
          ⟨.desktop, some "tool.desktop"⟩ := by
  refine ⟨Reader.proper_any, ?_⟩
  have hproper : ∀ op ∈ [Operation.add (describedBy .desktop "tool.desktop")], op.Proper := by
    intro op hop
    rw [List.mem_singleton.1 hop]
    exact Component.proper_setId {} "org.example.Tool"
  have hreach : Reachable ⟨{}, {}, ⟨["en"], 4, true, 3⟩⟩ Reader.any _ :=
    ⟨[.add (describedBy .desktop "tool.desktop")], hproper, rfl⟩
  apply (((add_loses_no_source Reader.proper_any hreach).1 _ "org.example.Tool" rfl rfl).2.1 _)
  exact ⟨describedBy .desktop "tool.desktop", by decide +kernel, by decide +kernel⟩

end SoftwareCatalog.Store
