import SoftwareCatalog.Proofs.Component.Absorption
import SoftwareCatalog.Proofs.Component.Joined
import SoftwareCatalog.Proofs.Store.PriorityOrder

namespace SoftwareCatalog

theorem Attribute.get_congr_bare {α : Type} {merge : SubsumeFlags → α → α → α}
    (f : Attribute merge) {c d : Component} (h : d.bare = c.bare) : f.get d = f.get c := by
  rw [Component.eq_attach_of_bare h]
  exact f.get_attach c d.addons d.tokens

theorem Component.Concur.congr_bare {a b c d : Component} (h : Concur a b) (hc : c.bare = a.bare)
    (hd : d.bare = b.bare) : Concur c d := by
  rw [eq_attach_of_bare hc, eq_attach_of_bare hd]
  exact h.attach c.addons d.addons c.tokens d.tokens

theorem Component.Joined.congr_bare {a b c d : Component} (h : Joined a b c)
    (hd : d.bare = c.bare) : Joined a b d := by
  rw [eq_attach_of_bare hd]
  exact h.attach d.addons d.tokens

section Reconcile

variable {preferLocal : Bool} {a b : Component}

/-- Metadata takes over what a launcher says. -/
theorem kept_of_metadata_stored (ha : a.formatKind.isLocalMetadata = true)
    (hb : b.formatKind = .desktop) (hpriority : a.priority = b.priority) :
    (reconcile preferLocal a b).kept = a.subsume twoWay b := by
  have hkind : a.formatKind = .appData ∨ a.formatKind = .metaInfo := by
    cases hk : a.formatKind <;> simp [hk, FormatKind.isLocalMetadata] at ha ⊢
  have hbase : reconcile preferLocal a b = mergeBoth .stored a b := by
    unfold reconcile reconcileByPriority
    rcases hkind with hk | hk <;>
      simp [hk, hb, hpriority, FormatKind.isRemote, FormatKind.isLocalMetadata]
  rw [hbase]
  rfl

/-- A launcher gives way to metadata that takes over what both say. -/
theorem kept_of_launcherMeets (h : LauncherMeets a b) :
    (reconcile preferLocal a b).kept = b.subsume fillBack (a.subsume twoWay b) := by
  rw [reconcile_of_launcherMeets preferLocal h]
  rfl

/-- Descriptions of equal priority are merged unless metadata comes to that of a catalog. -/
theorem kept_of_equal_priority (hpriority : a.priority = b.priority)
    (hapart : ¬ (a.formatKind = .appStream ∧ b.formatKind.isLocalMetadata = true)) :
    (reconcile false a b).kept = (a.mergeWith twoWay b).1 ∨
      (reconcile false a b).kept = (a.mergeWith twoWay b).2 := by
  unfold reconcile
  simp only [Bool.false_eq_true, if_false]
  rw [if_neg (by simpa using hapart)]
  split
  · exact .inl rfl
  · unfold reconcileByPriority
    rw [if_neg (by omega), if_neg (by omega)]
    split
    · exact .inr rfl
    · exact .inl rfl

end Reconcile

namespace Store

variable {s : Store} {x : String} {a b : Component}

/-- Two descriptions of one ID leave one component, made of what stays of both. -/
theorem Vacant.add_two (h : s.Vacant x) (hplain : s.settings.add.useUniqueId = false)
    (hnone : s.patchesFor x = []) (hx : x ≠ "") (ha : Describes x a) (hb : Describes x b)
    (hfree : s.existing? a = none) : ∃ key, Sole ((s.add a).add b) x key
      (reconcile s.settings.add.preferLocal a b).kept s.entries := by
  have hboth : ∀ c ∈ [a, b], Describes x c := by
    intro c hc
    rcases List.mem_cons.1 hc with rfl | hc
    · exact ha
    · exact List.mem_singleton.1 hc ▸ hb
  exact h.adds hplain hnone hx hboth hfree

/-- A launcher and metadata of equal priority leave one component in either order, and both
orders agree on everything but the values under keys. Of these the description that comes in last
overwrites the others, so both orders agree on them only where no key has one value in the
launcher and another in the metadata. -/
theorem launcher_meets_metadata {settings : Settings} {reader : Reader} (hr : reader.Proper)
    (hs : Reachable settings reader s) (hplain : settings.add.useUniqueId = false)
    (hexact : settings.add.useMergeHeuristic = false) (hx : x ≠ "") (hnone : s.byId x = [])
    (hpatches : s.patchesFor x = []) {launcher metadata : Component}
    (hlauncher : Describes x launcher) (hmetadata : Describes x metadata)
    (hdesktop : launcher.formatKind = .desktop)
    (hlocal : metadata.formatKind.isLocalMetadata = true)
    (hpriority : launcher.priority = metadata.priority)
    (honce : (versions launcher.releases).Nodup) (honce' : (versions metadata.releases).Nodup) :
    ∃ c d, ((s.add launcher).add metadata).byId x = [c] ∧
      ((s.add metadata).add launcher).byId x = [d] ∧
      Component.Concur c d ∧ c.uniqueId = d.uniqueId ∧
      ∀ f ∈ Component.annotations,
        (∀ k, (f.get c).get? k = ((f.get metadata).get? k).or ((f.get launcher).get? k)) ∧
        (∀ k, (f.get d).get? k = ((f.get launcher).get? k).or ((f.get metadata).get? k)) ∧
        (f.get c = f.get d ↔ (f.get metadata).Compatible (f.get launcher)) := by
  have hwell := hs.wellIndexed hr
  have hvacant := hwell.vacant hnone
  rw [← hs.settings_eq hr] at hplain hexact
  have hmeets : LauncherMeets launcher metadata := ⟨hdesktop, hlocal, hpriority⟩
  obtain ⟨_, hforth⟩ := hvacant.add_two hplain hpatches hx hlauncher hmetadata
    (hvacant.existing? hexact hlauncher.id)
  obtain ⟨_, hback⟩ := hvacant.add_two hplain hpatches hx hmetadata hlauncher
    (hvacant.existing? hexact hmetadata.id)
  rw [kept_of_launcherMeets hmeets] at hforth
  rw [kept_of_metadata_stored hlocal hdesktop hpriority.symm] at hback
  obtain ⟨c, hc, hbare, -⟩ := hforth.found
  obtain ⟨d, hd, hbare', -⟩ := hback.found
  have habsorb := Component.concur_absorb full_twoWay rfl full_fillBack rfl honce' honce
  have hconcur := habsorb.congr_bare hbare hbare'
  refine ⟨c, d, hc, hd, hconcur, hconcur.uniqueId, ?_⟩
  intro f _
  have hfirst := Component.get?_annotation_absorb full_twoWay rfl full_fillBack rfl f metadata
    launcher
  have hlast := Component.get?_annotation_subsume full_twoWay rfl f metadata launcher
  rw [f.get_congr_bare hbare, f.get_congr_bare hbare']
  exact ⟨hfirst, hlast, TextMap.eq_iff_compatible hfirst hlast⟩

/-- A tool with a homepage. -/
def describedWith (kind : FormatKind) (homepage : String) : Component :=
  { describedBy kind "tool" with urls := TextMap.empty.insert "homepage" homepage }

/-- A launcher and metadata that name the same homepage. -/
theorem launcher_meets_metadata_of_homepage :
    Reader.any.Proper ∧
    ∃ c d, (((new ⟨{}, {}, ⟨["en"], 4, true, 3⟩⟩ Reader.any).add
        (describedWith .desktop "https://example.org")).add
        (describedWith .metaInfo "https://example.org")).byId "org.example.Tool" = [c] ∧
      (((new ⟨{}, {}, ⟨["en"], 4, true, 3⟩⟩ Reader.any).add
        (describedWith .metaInfo "https://example.org")).add
        (describedWith .desktop "https://example.org")).byId "org.example.Tool" = [d] ∧
      Component.Concur c d ∧ c.urls = d.urls := by
  have hreach : Reachable ⟨{}, {}, ⟨["en"], 4, true, 3⟩⟩ Reader.any
      (new ⟨{}, {}, ⟨["en"], 4, true, 3⟩⟩ Reader.any) := ⟨[], by simp, rfl⟩
  have hlauncher : Describes "org.example.Tool" (describedWith .desktop "https://example.org") :=
    ⟨rfl, rfl⟩
  have hmetadata : Describes "org.example.Tool" (describedWith .metaInfo "https://example.org") :=
    ⟨rfl, rfl⟩
  obtain ⟨c, d, hc, hd, hconcur, -, hvalues⟩ := launcher_meets_metadata Reader.proper_any hreach
    rfl rfl (by decide) rfl rfl hlauncher hmetadata rfl rfl rfl (by decide +kernel)
    (by decide +kernel)
  refine ⟨Reader.proper_any, c, d, hc, hd, hconcur, ?_⟩
  have hurls := hvalues { flag := .url, get := (·.urls) } (by simp [Component.annotations])
  apply hurls.2.2.2
  intro k v w hv hw
  exact Option.some.inj (hv.symm.trans hw)

/-- Where they name different homepages, the order in which they come in decides. -/
theorem homepages_depend_on_order :
    (describedWith .desktop "https://example.org/launcher").formatKind = .desktop ∧
    (describedWith .metaInfo "https://example.org").formatKind = .metaInfo ∧
    (((new ⟨{}, {}, ⟨["en"], 4, true, 3⟩⟩ Reader.any).add
      (describedWith .desktop "https://example.org/launcher")).add
      (describedWith .metaInfo "https://example.org")).components.map
        (fun c => c.urls.get? "homepage") = [some "https://example.org"] ∧
    (((new ⟨{}, {}, ⟨["en"], 4, true, 3⟩⟩ Reader.any).add
      (describedWith .metaInfo "https://example.org")).add
      (describedWith .desktop "https://example.org/launcher")).components.map
        (fun c => c.urls.get? "homepage") = [some "https://example.org/launcher"] := by
  decide +kernel

theorem Vacant.joins (h : s.Vacant x) (hempty : s.entries = []) (hdefault : s.settings.add = {})
    (hnone : s.patchesFor x = []) (hx : x ≠ "") (ha : Describes x a) (hb : Describes x b)
    (hta : a.Tidy) (htb : b.Tidy) (hpriority : a.priority = b.priority)
    (hapart : ¬ (a.formatKind = .appStream ∧ b.formatKind.isLocalMetadata = true)) :
    ∃ c, ((s.add a).add b).components = [c] ∧ Component.Joined a b c := by
  obtain ⟨hforth, hback⟩ := Component.joined_mergeWith hta htb
  have hfree := h.wellIndexed.existing?_of_empty hempty a
  obtain ⟨_, hsole⟩ := h.add_two (by rw [hdefault]) hnone hx ha hb hfree
  rw [hempty, hdefault] at hsole
  obtain ⟨c, hc, hbare⟩ := hsole.components
  refine ⟨c, hc, ?_⟩
  rcases kept_of_equal_priority hpriority hapart with hkept | hkept
  · exact hforth.congr_bare (hkept ▸ hbare)
  · exact hback.congr_bare (hkept ▸ hbare)

/-- Two descriptions of equal priority that come into an empty catalog leave one component, and in
either order it has whatever one of them has, and nothing else. -/
theorem equal_priority_joins {settings : Settings} {reader : Reader} (hr : reader.Proper)
    (hs : Reachable settings reader s) (hempty : s.components = []) (hdefault : settings.add = {})
    (hx : x ≠ "") (hnone : s.patchesFor x = []) (ha : Describes x a) (hb : Describes x b)
    (hta : a.Tidy) (htb : b.Tidy) (hpriority : a.priority = b.priority)
    (hapart : ¬ (a.formatKind = .appStream ∧ b.formatKind.isLocalMetadata = true))
    (hapart' : ¬ (b.formatKind = .appStream ∧ a.formatKind.isLocalMetadata = true)) :
    (∃ c, ((s.add a).add b).components = [c] ∧ Component.Joined a b c) ∧
      ∃ c, ((s.add b).add a).components = [c] ∧ Component.Joined a b c := by
  obtain ⟨hvacant, hentries, -⟩ := (hs.wellIndexed hr).vacant_of_empty hempty x
  rw [← hs.settings_eq hr] at hdefault
  refine ⟨hvacant.joins hentries hdefault hnone hx ha hb hta htb hpriority hapart, ?_⟩
  obtain ⟨c, hc, h⟩ :=
    hvacant.joins hentries hdefault hnone hx hb ha htb hta hpriority.symm hapart'
  exact ⟨c, hc, h.symm⟩

/-- A tool of which a source knows one release. -/
def releasedAt (kind : FormatKind) (filename : String) (timestamp : Nat) : Component :=
  (describedBy kind filename).addRelease ⟨some "1.0", .stable, timestamp, .unset, .empty, []⟩

theorem tidy_releasedAt (kind : FormatKind) (filename : String) (timestamp : Nat) :
    (releasedAt kind filename timestamp).Tidy := by
  have hnamed : (describedBy kind filename).Tidy :=
    (Component.Tidy.ofId "org.example.Tool").gains (.format _)
  exact hnamed.gains (.release _)

/-- A launcher without the date of a release, and then metadata with it. -/
theorem launcher_and_metadata_join :
    Reader.any.Proper ∧ (releasedAt .desktop "tool.desktop" 0).Tidy ∧
    (releasedAt .metaInfo "tool.metainfo.xml" 1000).Tidy ∧
    ∃ c, (((new ⟨{}, {}, ⟨["en"], 4, true, 3⟩⟩ Reader.any).add
        (releasedAt .desktop "tool.desktop" 0)).add
        (releasedAt .metaInfo "tool.metainfo.xml" 1000)).components = [c] ∧
      Component.Joined (releasedAt .desktop "tool.desktop" 0)
        (releasedAt .metaInfo "tool.metainfo.xml" 1000) c ∧ versions c.releases = ["1.0"] := by
  have hreach : Reachable ⟨{}, {}, ⟨["en"], 4, true, 3⟩⟩ Reader.any
      (new ⟨{}, {}, ⟨["en"], 4, true, 3⟩⟩ Reader.any) := ⟨[], by simp, rfl⟩
  have hlauncher := tidy_releasedAt .desktop "tool.desktop" 0
  have hmetadata := tidy_releasedAt .metaInfo "tool.metainfo.xml" 1000
  obtain ⟨⟨c, hc, hjoined⟩, -⟩ := equal_priority_joins Reader.proper_any hreach rfl rfl
    (by decide) rfl ⟨rfl, rfl⟩ ⟨rfl, rfl⟩ hlauncher hmetadata rfl (by decide) (by decide)
  have honce : versions c.releases = ["1.0"] := by
    apply List.perm_singleton.1
    refine (List.perm_ext_iff_of_nodup hjoined.version_once (List.nodup_singleton _)).2 ?_
    intro v
    rw [hjoined.version v]
    exact or_self_iff
  exact ⟨Reader.proper_any, hlauncher, hmetadata, c, hc, hjoined, honce⟩

end Store

end SoftwareCatalog
