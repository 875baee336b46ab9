import SoftwareCatalog.Proofs.Store.Gathering

namespace SoftwareCatalog.Store

variable {s t : Store} {c d : Component} {name : String}

/-- A catalog has taken a component in: a record has all its formats, or it waits as a patch. -/
inductive TakenIn (s : Store) (c : Component) : Prop
  | stored (hkind : c.mergeKind = .standalone) {d : Component} (hd : d ∈ s.components)
    (hformats : c.formats ⊆ d.formats) : TakenIn s c
  | waiting (hkind : c.mergeKind.isPatch = true) {id : String} (hid : c.id = some id)
    (hp : c ∈ s.patchesFor id) : TakenIn s c

/-- Nothing in a catalog comes from a file. -/
structure FreeOf (name : String) (s : Store) : Prop where
  components : ∀ c ∈ s.components, c.hasSourceFile name = false
  patches : ∀ id, ∀ p ∈ s.patchesFor id, p.hasSourceFile name = false

/-- A component is refused for want of an ID only. -/
theorem takenIn_add (hs : s.WellIndexed) {id : String} (hid : c.id = some id) :
    TakenIn (s.add c) c := by
  cases hpatch : c.mergeKind.isPatch with
  | true =>
    have hwaits : c ∈ (s.add c).patchesFor id := by
      rw [patchesFor_add, if_pos ⟨hpatch, hid⟩]
      exact List.mem_append_right _ List.mem_cons_self
    exact .waiting hpatch hid hwaits
  | false =>
    have hkind : c.mergeKind = .standalone := MergeKind.isPatch_eq_false_iff.1 hpatch
    obtain ⟨d, hd, hformats, -⟩ := hs.exists_holder hid hkind
    exact .stored hkind hd hformats

theorem TakenIn.add (h : TakenIn s c) (hs : s.WellIndexed) (hc : FromFile name c) {id : String}
    (hid : d.id = some id) : TakenIn (s.add d) c := by
  cases h with
  | @stored hkind e he hformats =>
    obtain ⟨kind, hone⟩ := hc.formats
    rw [hone] at hformats
    have hcarries : s.Carries ⟨kind, some name⟩ := ⟨e, he, hformats List.mem_cons_self⟩
    obtain ⟨e', he', hin⟩ := carries_add_of hs hid hcarries
    refine .stored hkind he' ?_
    rw [hone]
    exact List.cons_subset.2 ⟨hin, List.nil_subset _⟩
  | @waiting hkind x hx hp =>
    have hstays : c ∈ (s.add d).patchesFor x := by
      rw [patchesFor_add]
      split
      · exact List.mem_append_left _ hp
      · exact hp
    exact .waiting hkind hx hstays

theorem TakenIn.adds {ds : List Component} (h : TakenIn s c) (hs : s.WellIndexed)
    (hc : FromFile name c) (hds : ∀ d ∈ ds, FromFile name d) : TakenIn (ds.foldl Store.add s) c := by
  induction ds generalizing s with
  | nil => exact h
  | cons d ds ih =>
    have hd := hds d List.mem_cons_self
    obtain ⟨x, hid, -⟩ := hd.id
    have hnext : (s.add d).WellIndexed := hs.step (.add (Component.proper_of_id hd.id))
    exact ih (h.add hs hc hid) hnext fun e he => hds e (List.mem_cons_of_mem d he)

theorem takenIn_adds {cs : List Component} (hs : s.WellIndexed)
    (hcs : ∀ c ∈ cs, FromFile name c) (hc : c ∈ cs) : TakenIn (cs.foldl Store.add s) c := by
  induction cs generalizing s with
  | nil => exact absurd hc List.not_mem_nil
  | cons d cs ih =>
    have hd := hcs d List.mem_cons_self
    have hrest : ∀ c ∈ cs, FromFile name c := fun c hc => hcs c (List.mem_cons_of_mem d hc)
    obtain ⟨x, hid, -⟩ := hd.id
    have hnext : (s.add d).WellIndexed := hs.step (.add (Component.proper_of_id hd.id))
    rcases List.mem_cons.1 hc with rfl | hc
    · exact (takenIn_add hs hid).adds hnext hd hrest
    · exact ih hnext hrest hc

theorem SameCatalog.takenIn (h : SameCatalog s t) (hc : TakenIn s c) : TakenIn t c := by
  have hentries {u : Store} : (∃ d ∈ u.components, c.formats ⊆ d.formats) ↔
      ∃ e ∈ u.entries, c.formats ⊆ e.2.formats :=
    mem_components (p := fun d => c.formats ⊆ d.formats) fun _ => Iff.rfl
  cases hc with
  | @stored hkind d hd hformats =>
    obtain ⟨e, he, hall⟩ := hentries.1 ⟨d, hd, hformats⟩
    obtain ⟨d', hd', hall'⟩ := hentries.2 ⟨e, h.entries.symm ▸ he, hall⟩
    exact .stored hkind hd' hall'
  | waiting hkind hid hp => exact .waiting hkind hid (h.patchesFor _ ▸ hp)

theorem takenIn_addMany {cs : List Component} (hs : s.WellIndexed)
    (hcs : ∀ c ∈ cs, FromFile name c) (hc : c ∈ cs) : TakenIn (s.addMany cs) c := by
  have hadded := takenIn_adds (s := s.inhibit.2) hs.inhibit hcs hc
  exact (sameCatalog_release _ _).takenIn hadded

theorem not_holds_iff : (∀ c ∈ s.components, c.hasSourceFile name = false) ↔ ¬s.Holds name := by
  simp [Holds, Component.hasSourceFile]

/-- Taking a file back finds all that came from it. -/
theorem freeOf_removeBySourceFile (hs : s.WellIndexed) (name : String) :
    (s.removeBySourceFile name).2.FreeOf name where
  components := by
    rw [not_holds_iff, holds_removeBySourceFile hs]
    exact fun h => h.2 rfl
  patches id p hp := by
    rw [patchesFor_removeBySourceFile, List.mem_filter] at hp
    simpa using hp.2

theorem format_eq {source : SourceInfo} (hname : source.filename = some name) {kind : FormatKind}
    (hkind : kind ≠ .unset) : source.format kind = ⟨kind, some name⟩ := by
  simp [SourceInfo.format, hname, Format.withFilename, Format.ofKind, hkind]

/-- Each component of a source that has a name is stamped with what the catalog relies on: an ID,
one format of the kind of the document that names the source, its scope and its architecture. So
the catalog refuses none of them, and taking the source back finds all of them. -/
theorem sources_traceable {settings : Settings} {reader : Reader} (hr : reader.Proper)
    (hs : Reachable settings reader s) {bytes : ByteArray} {source : SourceInfo}
    {cs : List Component} (hname : source.filename = some name)
    (hread : Reader.any bytes source = .ok cs) :
    (∀ c ∈ cs, (∃ x, c.id = some x ∧ x ≠ "") ∧
      (∃ kind, source.DocumentKind bytes kind ∧ c.formats = [⟨kind, some name⟩]) ∧
      c.scope = source.scope ∧ (∀ a, source.arch = some a → a ∈ c.architectures)) ∧
    (∀ c ∈ cs, TakenIn (s.add c) c ∧ TakenIn (s.addMany cs) c) ∧
    FreeOf name ((s.addMany cs).removeBySourceFile name).2 := by
  have hindexed := hs.wellIndexed hr
  have hstamps : ∀ c ∈ cs, ∃ kind, source.DocumentKind bytes kind ∧ source.Stamps kind c ∧
      c.formats = [⟨kind, some name⟩] := by
    intro c hc
    obtain ⟨kind, hkind, h⟩ := Reader.stamps_any hread c hc
    exact ⟨kind, hkind, h, h.formats.trans (by rw [format_eq hname hkind.ne_unset])⟩
  have hfrom : ∀ c ∈ cs, FromFile name c := by
    intro c hc
    obtain ⟨kind, -, h, hformats⟩ := hstamps c hc
    exact ⟨⟨kind, hformats⟩, h.id⟩
  refine ⟨?_, ?_, ?_⟩
  · intro c hc
    obtain ⟨kind, hkind, h, hformats⟩ := hstamps c hc
    exact ⟨h.id, ⟨kind, hkind, hformats⟩, h.scope, h.arch⟩
  · intro c hc
    obtain ⟨x, hid, -⟩ := (hfrom c hc).id
    exact ⟨takenIn_add hindexed hid, takenIn_addMany hindexed hfrom hc⟩
  · have hadded : Gathers (· = name) s (s.addMany cs) := .addMany hindexed hfrom rfl
    exact freeOf_removeBySourceFile hadded.indexed name

/-- A collection of a component, a patch and an element without an ID. -/
def toolsText : String := "<?xml?><components><component><id>a</id></component>" ++
  "<component merge='append'><id>b</id></component><component/></components>"

def toolsSource : SourceInfo := ⟨some "d/tools.xml", .user, some "x86_64"⟩

/-- What the collection is read as. -/
def tools : List Component :=
  [Component.ofId "a", { Component.ofId "b" with mergeKind := .append }].map
    (toolsSource.stamp .appStream)

theorem tools_traceable :
    Reader.any.Proper ∧ Reader.any toolsText.toUTF8 toolsSource = .ok tools ∧
    (∀ c ∈ tools, TakenIn (sharedCatalog.addMany tools) c) ∧
    FreeOf "d/tools.xml" ((sharedCatalog.addMany tools).removeBySourceFile "d/tools.xml").2 := by
  have hread : Reader.any toolsText.toUTF8 toolsSource = .ok tools := by decide +kernel
  obtain ⟨-, htaken, hfree⟩ :=
    sources_traceable Reader.proper_any sharedCatalog_reachable rfl hread
  exact ⟨Reader.proper_any, hread, fun c hc => (htaken c hc).2, hfree⟩

end SoftwareCatalog.Store
