import SoftwareCatalog.Proofs.Component.Precedence
import SoftwareCatalog.Proofs.Store.Sole

namespace SoftwareCatalog

theorem StandsFor.congr_bare {preferLocal : Bool} {cs : List Component} {w c d : Component}
    (h : StandsFor preferLocal cs w c) (hbare : d.bare = c.bare) :
    StandsFor preferLocal cs w d where
  mem := h.mem
  first := h.first
  own := (congrArg Component.own hbare).trans h.own
  formatKind := (congrArg Component.formatKind hbare).trans h.formatKind
  formats := by rw [← d.bare_formats, hbare]; exact h.formats
  versions := by rw [← d.bare_releases, hbare]; exact h.versions

namespace Store

variable {s : Store} {x : String} {rs order : List Component}

theorem entries_eq_nil (h : s.components = []) : s.entries = [] := by
  have hrecords : s.records = [] := List.map_eq_nil_iff.1 h
  simp [entries, hrecords]

/-- An empty catalog has no component with any ID, nor one that would be met. -/
theorem WellIndexed.vacant_of_empty (h : s.WellIndexed) (hempty : s.components = []) (x : String) :
    s.Vacant x ∧ s.entries = [] ∧ ∀ c, s.existing? c = none := by
  have hentries := entries_eq_nil hempty
  refine ⟨⟨h, ?_⟩, hentries, h.existing?_of_empty hentries⟩
  rw [h.keysOf_eq, hentries]
  rfl

/-- A run of additions to an empty catalog leaves one component that stands for all. -/
theorem exists_standsFor (hs : s.WellIndexed) (hempty : s.components = [])
    (hplain : s.settings.add.useUniqueId = false) (hx : x ≠ "") (hnone : s.patchesFor x = [])
    (hsome : rs ≠ []) (hrs : ∀ r ∈ rs, Describes x r)
    (hrank : Rankable s.settings.add.preferLocal rs) :
    ∃ w d, (rs.foldl add s).components = [d] ∧ StandsFor s.settings.add.preferLocal rs w d := by
  obtain ⟨hvacant, hentries, hfree⟩ := hs.vacant_of_empty hempty x
  obtain ⟨r, rest, rfl⟩ := List.exists_cons_of_ne_nil hsome
  obtain ⟨key, hsole⟩ := hvacant.adds hplain hnone hx hrs (hfree r)
  rw [hentries] at hsole
  obtain ⟨d, hd, hbare⟩ := hsole.components
  obtain ⟨w, hw⟩ := (StandsFor.single r).foldl hrank
  exact ⟨w, d, hd, hw.congr_bare hbare⟩

/-- In whichever order descriptions of one ID and of different priorities come into an empty
catalog, it ends up with the one that prevails, and with the formats and versions of all. -/
theorem priority_decides_in_any_order {settings : Settings} {reader : Reader} (hr : reader.Proper)
    (hs : Reachable settings reader s) (hempty : s.components = [])
    (hplain : settings.add.useUniqueId = false) (hx : x ≠ "") (hnone : s.patchesFor x = [])
    (hsome : rs ≠ []) (hrs : ∀ r ∈ rs, Describes x r)
    (hrank : Rankable settings.add.preferLocal rs) :
    ∃ w, Prevails settings.add.preferLocal rs w ∧
      (∀ v, Prevails settings.add.preferLocal rs v → v = w) ∧
      ∀ order : List Component, order.Perm rs → ∃ d, (order.foldl add s).components = [d] ∧
        d.own = w.own ∧ (∀ f, f ∈ d.formats ↔ ∃ r ∈ rs, f ∈ r.formats) ∧
        ∀ v, v ∈ versions d.releases ↔ ∃ r ∈ rs, v ∈ versions r.releases := by
  have hwell := hs.wellIndexed hr
  rw [← hs.settings_eq hr] at hplain hrank ⊢
  have hall {order : List Component} (hp : order.Perm rs) : ∃ w d,
      (order.foldl add s).components = [d] ∧ StandsFor s.settings.add.preferLocal rs w d := by
    have hne : order ≠ [] := fun hnil => hsome (List.nil_perm.1 (hnil ▸ hp))
    obtain ⟨w, d, hd, h⟩ := exists_standsFor hwell hempty hplain hx hnone hne
      (fun r hr => hrs r (hp.mem_iff.1 hr)) (hrank.subperm hp.subperm)
    exact ⟨w, d, hd, h.congr fun c => hp.mem_iff.symm⟩
  obtain ⟨w, _, -, hw⟩ := hall (.refl rs)
  have hunique (v : Component) (hv : Prevails s.settings.add.preferLocal rs v) : v = w :=
    hrank.eq_of_prevails hv hw.prevails
  refine ⟨w, hw.prevails, hunique, ?_⟩
  intro order hp
  obtain ⟨v, d, hd, h⟩ := hall hp
  obtain rfl := hunique v h.prevails
  exact ⟨d, hd, h.own, h.formats, h.versions⟩

/-- A tool as a source of a priority describes it. -/
def describedAt (kind : FormatKind) (filename : String) (priority : Int) : Component :=
  { describedBy kind filename with priority }

/-- A catalog of a high priority, a launcher, and metadata of a priority between theirs. -/
def toolSources : List Component :=
  [describedAt .appStream "tools.xml" 5, describedAt .desktop "tool.desktop" 0,
    describedAt .metaInfo "tool.metainfo.xml" 1]

/-- Where local metadata is preferred, that of the higher priority prevails over a launcher and over
a catalog of a still higher priority, although the catalog came in last. -/
theorem metadata_prevails_over_catalog :
    Reader.any.Proper ∧
    ∃ d, ([describedAt .desktop "tool.desktop" 0, describedAt .metaInfo "tool.metainfo.xml" 1,
        describedAt .appStream "tools.xml" 5].foldl add
        (new ⟨⟨false, true, false⟩, {}, ⟨["en"], 4, true, 3⟩⟩ Reader.any)).components = [d] ∧
      d.own = (describedAt .metaInfo "tool.metainfo.xml" 1).own ∧
      ⟨.appStream, some "tools.xml"⟩ ∈ d.formats := by
  have hreach : Reachable ⟨⟨false, true, false⟩, {}, ⟨["en"], 4, true, 3⟩⟩ Reader.any
      (new ⟨⟨false, true, false⟩, {}, ⟨["en"], 4, true, 3⟩⟩ Reader.any) :=
    ⟨[], by simp, rfl⟩
  have hdescribes : ∀ r ∈ toolSources, Describes "org.example.Tool" r := by
    intro r hr
    simp only [toolSources, List.mem_cons, List.not_mem_nil, or_false] at hr
    rcases hr with rfl | rfl | rfl <;> exact ⟨rfl, rfl⟩
  have hrank : Rankable true toolSources :=
    ⟨by decide +kernel, by decide +kernel, by decide +kernel, by decide +kernel⟩
  have hprevails : Prevails true toolSources (describedAt .metaInfo "tool.metainfo.xml" 1) :=
    ⟨by decide +kernel, by decide +kernel⟩
  obtain ⟨w, -, hunique, hall⟩ := priority_decides_in_any_order Reader.proper_any hreach rfl rfl
    (by decide) rfl (by simp [toolSources]) hdescribes hrank
  have hperm : [describedAt .desktop "tool.desktop" 0, describedAt .metaInfo "tool.metainfo.xml" 1,
      describedAt .appStream "tools.xml" 5].Perm toolSources := by
    decide +kernel
  obtain ⟨d, hd, hown, hformats, -⟩ := hall _ hperm
  obtain rfl := hunique _ hprevails
  refine ⟨Reader.proper_any, d, hd, hown, (hformats _).2 ?_⟩
  decide +kernel

end Store

end SoftwareCatalog
