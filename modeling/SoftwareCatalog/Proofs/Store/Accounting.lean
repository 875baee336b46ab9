import SoftwareCatalog.Proofs.Store.Contribution
import SoftwareCatalog.Proofs.Store.SourceRemoval

namespace SoftwareCatalog.Store

/-- Some stored component has a format of a file. -/
def Holds (s : Store) (name : String) : Prop :=
  ∃ c ∈ s.components, ∃ f ∈ c.formats, f.filename = some name

/-- Some pending patch has a format of a file. -/
def HoldsPatch (s : Store) (name : String) : Prop :=
  ∃ id, ∃ p ∈ s.patchesFor id, ∃ f ∈ p.formats, f.filename = some name

theorem holds_iff {s : Store} {name : String} :
    s.Holds name ↔ ∃ e ∈ s.entries, ∃ f ∈ e.2.formats, f.filename = some name :=
  mem_components (p := fun c => ∃ f ∈ c.formats, f.filename = some name) fun _ => Iff.rfl

theorem holds_iff_carries {s : Store} {name : String} :
    s.Holds name ↔ ∃ f, f.filename = some name ∧ s.Carries f := by
  constructor
  · intro hsome
    obtain ⟨c, hc, f, hf, hname⟩ := hsome
    exact ⟨f, hname, c, hc, hf⟩
  · intro hsome
    obtain ⟨f, hname, c, hc, hf⟩ := hsome
    exact ⟨c, hc, f, hf, hname⟩

/-- A component as a file yields it. -/
structure FromFile (name : String) (c : Component) : Prop where
  formats : ∃ kind, c.formats = [⟨kind, some name⟩]
  id : ∃ x, c.id = some x ∧ x ≠ ""

/-- The books of a catalog: the files behind its components and behind its patches. -/
structure Accounts (described patched : String → Prop) (s : Store) : Prop where
  reader : s.reader = Reader.any
  wellIndexed : s.WellIndexed
  filed : ∀ e ∈ s.entries, e.2.formats ≠ [] ∧ ∀ f ∈ e.2.formats, f.filename ≠ none
  patchFiled : ∀ id, ∀ p ∈ s.patchesFor id, ∃ kind name, p.formats = [⟨kind, some name⟩]
  described : ∀ name, s.Holds name ↔ described name
  patched : ∀ name, s.HoldsPatch name ↔ patched name

variable {described patched : String → Prop} {s t : Store}

theorem SameCatalog.holds_iff (h : SameCatalog s t) {name : String} :
    t.Holds name ↔ s.Holds name := by
  rw [Store.holds_iff, Store.holds_iff, h.entries]

theorem Accounts.congr (h : Accounts described patched s) (k : SameCatalog s t) :
    Accounts described patched t where
  reader := k.reader.trans h.reader
  wellIndexed := h.wellIndexed.same k.sameIndices
  filed := k.entries ▸ h.filed
  patchFiled := by
    unfold patchesFor
    rw [k.patches]
    exact h.patchFiled
  described name := by
    rw [← h.described name, holds_iff, holds_iff, k.entries]
  patched name := by
    rw [← h.patched name]
    unfold HoldsPatch patchesFor
    rw [k.patches]

theorem Accounts.iff (h : Accounts described patched s) {described' patched' : String → Prop}
    (hdescribed : ∀ name, described name ↔ described' name)
    (hpatched : ∀ name, patched name ↔ patched' name) : Accounts described' patched' s where
  reader := h.reader
  wellIndexed := h.wellIndexed
  filed := h.filed
  patchFiled := h.patchFiled
  described name := (h.described name).trans (hdescribed name)
  patched name := (h.patched name).trans (hpatched name)

theorem FromFile.names_iff {name n : String} {c : Component} (h : FromFile name c) :
    (∃ f ∈ c.formats, f.filename = some n) ↔ n = name := by
  obtain ⟨kind, hformats⟩ := h.formats
  simp [hformats, eq_comm]

theorem holds_add (hs : s.WellIndexed) {c : Component} {id : String} (hid : c.id = some id)
    (hkind : c.mergeKind = .standalone) {name : String} :
    (s.add c).Holds name ↔ s.Holds name ∨ ∃ f ∈ c.formats, f.filename = some name := by
  rw [holds_iff_carries, holds_iff_carries]
  simp only [hs.carries_add hid hkind]
  constructor
  · intro hsome
    obtain ⟨f, hname, hf | hf⟩ := hsome
    · exact .inl ⟨f, hname, hf⟩
    · exact .inr ⟨f, hf, hname⟩
  · intro heither
    rcases heither with ⟨f, hname, hf⟩ | ⟨f, hf, hname⟩
    · exact ⟨f, hname, .inl hf⟩
    · exact ⟨f, hname, .inr hf⟩

theorem Accounts.add_standalone (h : Accounts described patched s) {name : String} {c : Component}
    (hc : FromFile name c) (hkind : c.mergeKind = .standalone) :
    Accounts (fun n => described n ∨ n = name) patched (s.add c) := by
  obtain ⟨x, hid, hx⟩ := hc.id
  obtain ⟨kind, hformats⟩ := hc.formats
  obtain ⟨d, old, hunited⟩ := h.wellIndexed.united_add hid hkind
  have hpatch : c.mergeKind.isPatch = false := by simp [hkind, MergeKind.isPatch]
  have hpatches : (s.add c).patches = s.patches := s.patches_add_of_not hpatch
  have hmem : ∀ f, f ∈ (s.patched x c).formats ↔ f = ⟨kind, some name⟩ := by
    intro f
    rw [s.formats_patched, hformats, List.mem_singleton]
  refine ⟨?_, h.wellIndexed.step (.add (Component.proper_of_id hc.id)), ?_, ?_, ?_, ?_⟩
  · exact (s.setup_add c).reader.trans h.reader
  · intro e he
    rcases hunited.others e he with heq | hin
    · rw [heq, d.bare_formats]
      have hunites (f : Format) := hunited.unites _ (additive_format f)
      constructor
      · have hfile := (hunites ⟨kind, some name⟩).2 (.inr ((hmem _).2 rfl))
        exact List.ne_nil_of_mem hfile
      · intro f hf
        rcases (hunites f).1 hf with ⟨o, ho, hfo⟩ | hfc
        · obtain ⟨k, hk⟩ := hunited.stored o ho
          exact (h.filed _ hk).2 f hfo
        · rw [(hmem f).1 hfc]
          exact Option.some_ne_none name
    · exact h.filed e hin
  · unfold patchesFor
    rw [hpatches]
    exact h.patchFiled
  · intro n
    rw [holds_add h.wellIndexed hid hkind, h.described n, hc.names_iff]
  · intro n
    rw [← h.patched n]
    unfold HoldsPatch patchesFor
    rw [hpatches]

/-- The formats of all records in their order. -/
def formatLists (s : Store) : List (List Format) := s.entries.map fun e => e.2.formats

theorem formatLists_update (hs : s.Keyed) (key : Nat) {f : Component → Component}
    (hf : ∀ c, (f c).formats = c.formats) : (s.update key f).formatLists = s.formatLists := by
  cases hc : s.find? key with
  | none => rw [update_of_none hc]
  | some c =>
    unfold formatLists
    rw [(altered_update hc f).entries, List.map_map]
    apply List.map_congr_left
    intro e he
    by_cases hk : e.1 = key
    · have heq := hs.eq_of_key he (mem_entries_of_find? hc) hk
      simp [alter, heq, hf]
    · simp [alter, hk]

theorem formatLists_given (hs : s.WellIndexed) (patch : Component) (keys : List Nat) :
    (s.given patch keys).formatLists = s.formatLists := by
  induction keys generalizing s with
  | nil => rfl
  | cons k keys ih =>
    have hone := formatLists_update hs.keyed k
      fun c => (sameSource_subsume_patch c patch).formats
    have hnext := hs.edits (edits_update s k (f := fun c => c.subsume (patchFlags patch) patch)
      fun _ => rfl)
    exact (ih hnext).trans hone

/-- A patch changes no formats. -/
theorem formatLists_add_patch (hs : s.WellIndexed) {c : Component} {x : String}
    (hid : c.id = some x) (hkind : c.mergeKind.isPatch = true) :
    (s.add c).formatLists = s.formatLists := by
  have hsame := s.sameCatalog_internAll c.pooledTexts
  have hpooled : formatLists { s with pool := s.pool.internAll c.pooledTexts } = s.formatLists := by
    unfold formatLists
    rw [hsame.entries]
  rw [s.add_patch_eq hid hkind]
  exact (formatLists_given (hs.same hsame.sameIndices) c _).trans hpooled

theorem holds_iff_formatLists {name : String} :
    s.Holds name ↔ ∃ l ∈ s.formatLists, ∃ f ∈ l, f.filename = some name := by
  rw [holds_iff]
  simp [formatLists]

theorem carries_iff_formatLists {f : Format} : s.Carries f ↔ ∃ l ∈ s.formatLists, f ∈ l := by
  rw [carries_iff]
  simp [formatLists]

/-- No addition takes a format away. -/
theorem carries_add_of (hs : s.WellIndexed) {c : Component} {x : String} (hid : c.id = some x)
    {f : Format} (h : s.Carries f) : (s.add c).Carries f := by
  cases hpatch : c.mergeKind.isPatch with
  | true =>
    rw [carries_iff_formatLists, formatLists_add_patch hs hid hpatch]
    exact carries_iff_formatLists.1 h
  | false =>
    have hkind : c.mergeKind = .standalone := MergeKind.isPatch_eq_false_iff.1 hpatch
    exact (hs.carries_add hid hkind f).2 (.inl h)

theorem exists_patchesFor_add {c : Component} {x : String} (hid : c.id = some x)
    (hkind : c.mergeKind.isPatch = true) {p : Component} :
    (∃ id, p ∈ (s.add c).patchesFor id) ↔ (∃ id, p ∈ s.patchesFor id) ∨ p = c := by
  constructor
  · intro hsome
    obtain ⟨id, hp⟩ := hsome
    rw [patchesFor_add] at hp
    split at hp
    · rcases List.mem_append.1 hp with hp | hp
      · exact .inl ⟨id, hp⟩
      · exact .inr (List.mem_singleton.1 hp)
    · exact .inl ⟨id, hp⟩
  · intro heither
    rcases heither with ⟨id, hp⟩ | rfl
    · refine ⟨id, ?_⟩
      rw [patchesFor_add]
      split
      · exact List.mem_append_left _ hp
      · exact hp
    · refine ⟨x, ?_⟩
      rw [patchesFor_add, if_pos ⟨hkind, hid⟩]
      exact List.mem_append_right _ List.mem_cons_self

theorem holdsPatch_add {c : Component} {x : String} (hid : c.id = some x)
    (hkind : c.mergeKind.isPatch = true) {name : String} :
    (s.add c).HoldsPatch name ↔ s.HoldsPatch name ∨ ∃ f ∈ c.formats, f.filename = some name := by
  have hwait {p : Component} := exists_patchesFor_add (s := s) hid hkind (p := p)
  constructor
  · intro hsome
    obtain ⟨id, p, hp, hname⟩ := hsome
    rcases hwait.1 ⟨id, hp⟩ with ⟨id', hp'⟩ | rfl
    · exact .inl ⟨id', p, hp', hname⟩
    · exact .inr hname
  · intro heither
    rcases heither with ⟨id, p, hp, hname⟩ | hname
    · obtain ⟨id', hp'⟩ := hwait.2 (.inl ⟨id, hp⟩)
      exact ⟨id', p, hp', hname⟩
    · obtain ⟨id', hp'⟩ := hwait.2 (.inr rfl)
      exact ⟨id', c, hp', hname⟩

theorem Accounts.add_patch (h : Accounts described patched s) {name : String} {c : Component}
    (hc : FromFile name c) (hkind : c.mergeKind.isPatch = true) :
    Accounts described (fun n => patched n ∨ n = name) (s.add c) := by
  obtain ⟨x, hid, -⟩ := hc.id
  have hsame := formatLists_add_patch h.wellIndexed hid hkind
  have hproper : c.Proper := Component.proper_of_id hc.id
  refine ⟨(s.setup_add c).reader.trans h.reader, h.wellIndexed.step (.add hproper), ?_, ?_, ?_, ?_⟩
  · intro e he
    have hin : e.2.formats ∈ s.formatLists := hsame ▸ List.mem_map_of_mem he
    obtain ⟨d, hd, heq⟩ := List.mem_map.1 hin
    rw [← heq]
    exact h.filed d hd
  · intro id p hp
    rcases (exists_patchesFor_add hid hkind).1 ⟨id, hp⟩ with ⟨id', hp'⟩ | rfl
    · exact h.patchFiled id' p hp'
    · obtain ⟨kind, hformats⟩ := hc.formats
      exact ⟨kind, name, hformats⟩
  · intro n
    rw [← h.described n, holds_iff_formatLists, holds_iff_formatLists, hsame]
  · intro n
    rw [holdsPatch_add hid hkind, h.patched n, hc.names_iff]

/-- A component of a file enters the file into the books. -/
theorem Accounts.add (h : Accounts described patched s) {name : String} {c : Component}
    (hc : FromFile name c) :
    Accounts (fun n => described n ∨ n = name ∧ c.mergeKind.isPatch = false)
      (fun n => patched n ∨ n = name ∧ c.mergeKind.isPatch = true) (s.add c) := by
  cases hkind : c.mergeKind.isPatch with
  | true =>
    apply (h.add_patch hc hkind).iff <;> simp
  | false =>
    have hstandalone : c.mergeKind = .standalone := MergeKind.isPatch_eq_false_iff.1 hkind
    apply (h.add_standalone hc hstandalone).iff <;> simp

theorem Accounts.adds (h : Accounts described patched s) {name : String} {cs : List Component}
    (hcs : ∀ c ∈ cs, FromFile name c) :
    Accounts (fun n => described n ∨ n = name ∧ ∃ c ∈ cs, c.mergeKind.isPatch = false)
      (fun n => patched n ∨ n = name ∧ ∃ c ∈ cs, c.mergeKind.isPatch = true)
      (cs.foldl Store.add s) := by
  induction cs generalizing s described patched with
  | nil =>
    apply h.iff <;> simp
  | cons c cs ih =>
    have hnext := h.add (hcs c List.mem_cons_self)
    have hrest := ih hnext fun d hd => hcs d (List.mem_cons_of_mem c hd)
    apply hrest.iff
    all_goals
      intro n
      simp only [List.mem_cons, exists_eq_or_imp, and_or_left, or_assoc]

end SoftwareCatalog.Store
