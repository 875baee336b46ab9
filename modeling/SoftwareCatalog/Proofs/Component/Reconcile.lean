import Mathlib.Tactic.Tauto
import SoftwareCatalog.Proofs.Component.Collection
import SoftwareCatalog.Store.Reconcile

namespace SoftwareCatalog

/-- The versions that releases are listed under. -/
def versions (releases : List Release) : List String := releases.filterMap (·.version)

theorem mem_versions {releases : List Release} {v : String} :
    v ∈ versions releases ↔ ∃ r ∈ releases, r.version = some v :=
  List.mem_filterMap

theorem mem_versions_addTo {releases : List Release} {r : Release} {v : String} :
    v ∈ versions (Release.addTo releases r) ↔ v ∈ versions releases ∨ r.version = some v := by
  induction releases with
  | nil => simp [Release.addTo, mem_versions]
  | cons e es ih =>
    have hcons (a : Release) (as : List Release) :
        v ∈ versions (a :: as) ↔ a.version = some v ∨ v ∈ versions as := by
      simp [mem_versions]
    unfold Release.addTo
    by_cases hsame : e.same r
    · -- the entry that absorbs the release has its version already
      have heq : e.version = r.version := by
        simp only [Release.same, Bool.and_eq_true, beq_iff_eq] at hsame
        exact hsame.2
      rw [if_pos hsame, hcons, hcons, ← heq]
      simp only [Release.absorb]
      constructor
      · intro h
        exact .inl h
      · intro heither
        rcases heither with h | h
        · exact h
        · exact .inl h
    · rw [if_neg hsame, hcons, hcons, ih, or_assoc]

theorem mem_versions_foldl_addTo {as bs : List Release} {v : String} :
    v ∈ versions (bs.foldl Release.addTo as) ↔ v ∈ versions as ∨ v ∈ versions bs := by
  induction bs generalizing as with
  | nil => simp [versions]
  | cons b bs ih =>
    rw [List.foldl_cons, ih, mem_versions_addTo]
    simp only [mem_versions, List.mem_cons, exists_eq_or_imp]
    exact or_assoc

namespace Component

variable {flags : SubsumeFlags} {c d : Component}

theorem formats_subsume_of_not (h : flags.has .formats = false) :
    (c.subsume flags d).formats = c.formats := by
  simp [subsume, h]

theorem mem_formats_subsume (h : flags.has .formats = true) (hadd : flags.has .replace = false)
    {f : Format} : f ∈ (c.subsume flags d).formats ↔ f ∈ c.formats ∨ f ∈ d.formats := by
  have heq : (c.subsume flags d).formats = mergeEntries addNew flags c.formats d.formats := by
    simp [subsume, h]
  rw [heq]
  unfold mergeEntries
  split
  · rename_i hempty
    simp [List.isEmpty_iff.1 hempty]
  · simp [hadd, mem_foldl_addNew]

theorem releases_subsume (h : flags.has .releases = true) :
    (c.subsume flags d).releases = mergeEntries Release.addTo flags c.releases d.releases := by
  simp [subsume, h]

theorem mem_versions_subsume (h : flags.has .releases = true) (hadd : flags.has .replace = false)
    {v : String} : v ∈ versions (c.subsume flags d).releases ↔
      v ∈ versions c.releases ∨ v ∈ versions d.releases := by
  rw [releases_subsume h]
  unfold mergeEntries
  split
  · rename_i hempty
    simp [List.isEmpty_iff.1 hempty, versions]
  · simp [hadd, mem_versions_foldl_addTo]

end Component

theorem MergeKind.isPatch_iff {k : MergeKind} : k.isPatch = true ↔ k = .append ∨ k = .replace := by
  cases k <;> simp [isPatch]

theorem MergeKind.isPatch_eq_false_iff {k : MergeKind} : k.isPatch = false ↔ k = .standalone := by
  cases k <;> simp [isPatch]

theorem patchFlags_formats (patch : Component) : (patchFlags patch).has .formats = false := by
  unfold patchFlags
  split <;> rfl

theorem patchFlags_has (patch : Component) {f : SubsumeFlag} (h : f.isPolicy = false)
    (hne : f ≠ .formats) : (patchFlags patch).has f = true := by
  unfold patchFlags
  split <;> simp [SubsumeFlags.all, h, hne]

theorem patchFlags_replace (patch : Component) :
    (patchFlags patch).has .replace = true ↔ patch.mergeKind = .replace := by
  unfold patchFlags
  split
  · rename_i h
    simp [h]
  · rename_i h
    simp [h, SubsumeFlags.all, SubsumeFlag.isPolicy]

/-- Neither the ID nor the formats of a component change, and no patch arises. -/
structure SameSource (c d : Component) : Prop where
  id : d.id = c.id
  mergeKind : d.mergeKind = c.mergeKind
  formats : d.formats = c.formats

theorem SameSource.trans {c d e : Component} (h : SameSource c d) (k : SameSource d e) :
    SameSource c e :=
  ⟨k.id.trans h.id, k.mergeKind.trans h.mergeKind, k.formats.trans h.formats⟩

theorem sameSource_subsume_patch (c patch : Component) :
    SameSource c (c.subsume (patchFlags patch) patch) :=
  ⟨rfl, rfl, Component.formats_subsume_of_not (patchFlags_formats patch)⟩

theorem sameSource_applyPatch (c patch : Component) : SameSource c (applyPatch c patch) := by
  unfold applyPatch
  split
  · exact sameSource_subsume_patch c patch
  · exact ⟨rfl, rfl, rfl⟩

theorem sameSource_foldl_applyPatch (patches : List Component) (c : Component) :
    SameSource c (patches.foldl applyPatch c) := by
  induction patches generalizing c with
  | nil => exact ⟨rfl, rfl, rfl⟩
  | cons p patches ih => exact (sameSource_applyPatch c p).trans (ih _)

theorem mem_versions_applyPatch {c patch : Component} {v : String}
    (hpatch : patch.mergeKind = .replace → patch.releases = []) (h : v ∈ versions c.releases) :
    v ∈ versions (applyPatch c patch).releases := by
  unfold applyPatch
  split
  · rw [Component.releases_subsume (patchFlags_has patch rfl (by decide))]
    unfold mergeEntries
    split
    · exact h
    · rename_i hsome
      have hreplace : (patchFlags patch).has .replace = false := by
        rw [Bool.eq_false_iff]
        intro hreplace
        have hnone := hpatch ((patchFlags_replace patch).1 hreplace)
        exact hsome (by simp [hnone])
      rw [hreplace]
      exact mem_versions_foldl_addTo.2 (.inl h)
  · exact h

theorem mem_versions_foldl_applyPatch {patches : List Component} {c : Component} {v : String}
    (hpatches : ∀ p ∈ patches, p.mergeKind = .replace → p.releases = [])
    (h : v ∈ versions c.releases) : v ∈ versions (patches.foldl applyPatch c).releases := by
  induction patches generalizing c with
  | nil => exact h
  | cons p patches ih =>
    apply ih
    · intro q hq
      exact hpatches q (List.mem_cons_of_mem p hq)
    · exact mem_versions_applyPatch (hpatches p List.mem_cons_self) h

namespace Reconciled

/-- The component that stays. -/
def kept (r : Reconciled) : Component :=
  match r.survivor with
  | .stored => r.stored
  | .incoming => r.incoming

theorem kept_of_stored {r : Reconciled} (h : r.survivor = .stored) : r.kept = r.stored := by
  rw [kept, h]

theorem kept_of_incoming {r : Reconciled} (h : r.survivor = .incoming) : r.kept = r.incoming := by
  rw [kept, h]

end Reconciled

/-- Whether a record of a launcher meets metadata that it gives way to after both are merged. -/
def LauncherMeets (stored incoming : Component) : Prop :=
  stored.formatKind = .desktop ∧ incoming.formatKind.isLocalMetadata = true ∧
    stored.priority = incoming.priority

theorem reconcile_of_launcherMeets (preferLocal : Bool) {stored incoming : Component}
    (h : LauncherMeets stored incoming) :
    reconcile preferLocal stored incoming = mergeBoth .incoming stored incoming := by
  obtain ⟨hold, hnew, hpriority⟩ := h
  have hbase : reconcileByPriority stored incoming = mergeBoth .incoming stored incoming := by
    simp [reconcileByPriority, hpriority, hold, hnew]
  have hremote : incoming.formatKind.isRemote = false := by
    cases hk : incoming.formatKind <;> simp_all [FormatKind.isLocalMetadata, FormatKind.isRemote]
  have hlauncher : FormatKind.desktop.isRemote = false ∧
      FormatKind.desktop.isLocalMetadata = false := ⟨rfl, rfl⟩
  unfold reconcile
  simp [hold, hremote, hbase, hlauncher]

theorem reconcileByPriority_cases (stored incoming : Component) :
    reconcileByPriority stored incoming = keepStored stored incoming ∨
    reconcileByPriority stored incoming = keepIncoming stored incoming ∨
    reconcileByPriority stored incoming = mergeBoth .stored stored incoming ∨
    (LauncherMeets stored incoming ∧
      reconcileByPriority stored incoming = mergeBoth .incoming stored incoming) := by
  unfold reconcileByPriority
  split
  · exact .inl rfl
  · rename_i hle
    split
    · exact .inr (.inl rfl)
    · rename_i hge
      split
      · rename_i hkinds
        simp only [Bool.and_eq_true, decide_eq_true_eq] at hkinds
        have hpriority : stored.priority = incoming.priority := by omega
        exact .inr (.inr (.inr ⟨⟨hkinds.1, hkinds.2, hpriority⟩, rfl⟩))
      · exact .inr (.inr (.inl rfl))

/-- All that a comparison can come to. -/
theorem reconcile_cases (preferLocal : Bool) (stored incoming : Component) :
    reconcile preferLocal stored incoming = keepStored stored incoming ∨
    reconcile preferLocal stored incoming = keepIncoming stored incoming ∨
    reconcile preferLocal stored incoming = mergeBoth .stored stored incoming ∨
    (LauncherMeets stored incoming ∧
      reconcile preferLocal stored incoming = mergeBoth .incoming stored incoming) := by
  unfold reconcile
  simp only
  split
  · split
    · exact .inl rfl
    · split
      · exact .inr (.inl rfl)
      · exact reconcileByPriority_cases stored incoming
  · split
    · exact .inr (.inl rfl)
    · split
      · exact .inr (.inr (.inl rfl))
      · exact reconcileByPriority_cases stored incoming

variable (preferLocal : Bool) (stored incoming : Component)

theorem id_reconcile_stored : (reconcile preferLocal stored incoming).stored.id = stored.id := by
  rcases reconcile_cases preferLocal stored incoming with h | h | h | ⟨-, h⟩ <;> rw [h] <;> rfl

theorem id_reconcile_incoming :
    (reconcile preferLocal stored incoming).incoming.id = incoming.id := by
  rcases reconcile_cases preferLocal stored incoming with h | h | h | ⟨-, h⟩ <;> rw [h] <;> rfl

/-- Only a launcher that is merged with its metadata changes before it goes. -/
theorem stored_reconcile_of_gone
    (hgone : (reconcile preferLocal stored incoming).survivor = .incoming) :
    (reconcile preferLocal stored incoming).stored = stored ∨ LauncherMeets stored incoming := by
  rcases reconcile_cases preferLocal stored incoming with h | h | h | ⟨hmeets, -⟩
  · rw [h] at hgone
    cases hgone
  · rw [h]
    exact .inl rfl
  · rw [h] at hgone
    cases hgone
  · exact .inr hmeets

variable {preferLocal stored incoming}

/-- A property that subsuming formats and releases adds up. -/
def Additive (q : Component → Prop) : Prop :=
  ∀ flags c d, flags.has .formats = true → flags.has .releases = true →
    flags.has .replace = false → (q (Component.subsume flags c d) ↔ q c ∨ q d)

theorem additive_format (f : Format) : Additive fun c => f ∈ c.formats := by
  intro flags c d hformats _ hadd
  exact Component.mem_formats_subsume hformats hadd

theorem additive_version (v : String) : Additive fun c => v ∈ versions c.releases := by
  intro flags c d _ hreleases hadd
  exact Component.mem_versions_subsume hreleases hadd

/-- Whichever component stays, it has what adds up from both. -/
theorem kept_iff {q : Component → Prop} (hq : Additive q) :
    q (reconcile preferLocal stored incoming).kept ↔ q stored ∨ q incoming := by
  have hmerged : q (stored.subsume twoWay incoming) ↔ q stored ∨ q incoming :=
    hq twoWay stored incoming rfl rfl rfl
  rcases reconcile_cases preferLocal stored incoming with h | h | h | ⟨-, h⟩ <;> rw [h]
  · exact hq salvage stored incoming rfl rfl rfl
  · exact (hq salvage incoming stored rfl rfl rfl).trans or_comm
  · exact hmerged
  · have hback := hq ((twoWay.insert .noOverwrite).erase .replace) incoming
      (stored.subsume twoWay incoming) rfl rfl rfl
    refine hback.trans ?_
    rw [hmerged]
    tauto

end SoftwareCatalog
