import SoftwareCatalog.Proofs.Component.Attribute

namespace SoftwareCatalog

theorem distinct_mergeEntries {α : Type} {same : α → α → Bool} {target : List α}
    (h : Distinct same target) (flags : SubsumeFlags) (donor : List α) :
    Distinct same (mergeEntries (addUnlessSame same) flags target donor) := by
  unfold mergeEntries
  split
  · exact h
  · apply distinct_foldl
    split
    · exact List.Pairwise.nil
    · exact h

theorem nodup_versions_mergeEntries {target : List Release} (h : (versions target).Nodup)
    (flags : SubsumeFlags) (donor : List Release) :
    (versions (mergeEntries Release.addTo flags target donor)).Nodup := by
  unfold mergeEntries
  split
  · exact h
  · apply nodup_versions_foldl_addTo
    split
    · exact List.nodup_nil
    · exact h

namespace Component

/-- No collection lists two entries with one key, and no version is released twice. -/
structure Tidy (c : Component) : Prop where
  distinct : ∀ k ∈ collections, Distinct k.same (k.get c)
  versions : (versions c.releases).Nodup

instance (c : Component) : Decidable c.Tidy :=
  decidable_of_iff ((∀ k ∈ collections, Distinct k.same (k.get c)) ∧
    (SoftwareCatalog.versions c.releases).Nodup) ⟨fun h => ⟨h.1, h.2⟩, fun h => ⟨h.1, h.2⟩⟩

/-- The entries with which a description comes to say more. -/
inductive Gains (c : Component) : Component → Prop
  | format (f : Format) : Gains c (c.addFormat f)
  | release (r : Release) : Gains c (c.addRelease r)
  | provide (p : Provide) : Gains c (c.addProvide p)
  | launchable (l : Launchable) : Gains c (c.addLaunchable l)
  | screenshot (s : Screenshot) : Gains c (c.addScreenshot s)
  | review (r : Review) : Gains c (c.addReview r)
  | icon (i : Icon) : Gains c (c.addIcon i)
  | bundle (b : Bundle) : Gains c (c.addBundle b)
  | messageDomain (t : MessageDomain) : Gains c (c.addMessageDomain t)
  | suggest (s : Suggest) : Gains c (c.addSuggest s)
  | require (r : Require) : Gains c (c.addRequire r)
  | contentRating (r : ContentRating) : Gains c (c.addContentRating r)
  | agreement (a : Agreement) : Gains c (c.addAgreement a)

variable {c d : Component}

/-- Each entry comes to the end of one list, unless it is there already. -/
theorem Gains.collections_eq (h : c.Gains d) : ∀ k ∈ collections,
    k.get d = k.get c ∨ ∃ e, k.get d = addUnlessSame k.same (k.get c) e := by
  intro k hk
  simp only [collections, List.mem_cons, List.not_mem_nil, or_false] at hk
  cases h <;> rcases hk with
    rfl | rfl | rfl | rfl | rfl | rfl | rfl | rfl | rfl | rfl | rfl | rfl <;>
    first | exact .inl rfl | exact .inr ⟨_, rfl⟩

theorem Gains.releases_eq (h : c.Gains d) :
    d.releases = c.releases ∨ ∃ r, d.releases = Release.addTo c.releases r := by
  cases h with
  | release r => exact .inr ⟨r, rfl⟩
  | _ => exact .inl rfl

namespace Tidy

theorem ofId (id : String) : (Component.ofId id).Tidy where
  distinct k hk := by
    simp only [collections, List.mem_cons, List.not_mem_nil, or_false] at hk
    rcases hk with rfl | rfl | rfl | rfl | rfl | rfl | rfl | rfl | rfl | rfl | rfl | rfl <;>
      exact List.Pairwise.nil
  versions := List.nodup_nil

/-- Descriptions that are written entry by entry are tidy. -/
theorem gains (h : c.Tidy) (hgains : c.Gains d) : d.Tidy where
  distinct k hk := by
    rcases hgains.collections_eq k hk with heq | ⟨e, heq⟩
    · rw [heq]
      exact h.distinct k hk
    · rw [heq]
      exact distinct_addUnlessSame (h.distinct k hk) e
  versions := by
    rcases hgains.releases_eq with heq | ⟨r, heq⟩
    · rw [heq]
      exact h.versions
    · rw [heq]
      exact nodup_versions_foldl_addTo h.versions [r]

/-- So are those that take over what others say, tidy or not and with whatever policy. -/
theorem subsume (h : c.Tidy) (flags : SubsumeFlags) (d : Component) :
    (c.subsume flags d).Tidy where
  distinct k hk := by
    have heq := k.field.subsume_eq flags c d
    change Distinct k.same (k.field.get _)
    rw [heq]
    split
    · exact distinct_mergeEntries (h.distinct k hk) flags _
    · exact h.distinct k hk
  versions := by
    have heq : (c.subsume flags d).releases = if flags.has .releases then
        mergeEntries Release.addTo flags c.releases d.releases else c.releases :=
      releaseAttribute.subsume_eq flags c d
    rw [heq]
    split
    · exact nodup_versions_mergeEntries h.versions flags _
    · exact h.versions

end Tidy

end Component

end SoftwareCatalog
