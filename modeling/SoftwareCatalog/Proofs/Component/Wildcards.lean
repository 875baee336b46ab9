import SoftwareCatalog.Proofs.Component.Identity
import SoftwareCatalog.Proofs.Component.UniqueId

namespace SoftwareCatalog

variable {flags : SubsumeFlags}

theorem UniqueId.segmentMatches_of_kept {x y : String} (h : x ≠ wildcard → y = x) :
    segmentMatches x y = true := by
  by_cases hx : x = wildcard
  · simp [segmentMatches, hx]
  · rw [h hx]
    exact segmentMatches_self x

namespace Component

variable {c d : Component}

/-- The texts of an identity come from those of the two descriptions. -/
theorem unbroken_subsume (hc : c.identity.Unbroken) (hd : d.identity.Unbroken) :
    (c.subsume flags d).identity.Unbroken := by
  have hsourced (f : Attribute mergeScalar) (hown : ∀ x ∈ f.get c, '/' ∉ x.toList)
      (hother : ∀ x ∈ f.get d, '/' ∉ x.toList) :
      ∀ x ∈ f.get (c.subsume flags d), '/' ∉ x.toList := by
    rw [f.subsume_eq]
    split
    · rcases mergeScalar_eq_or flags (f.get c) (f.get d) with heq | heq <;> rw [heq] <;> assumption
    · exact hown
  exact
    { origin := hsourced originAttribute hc.origin hd.origin
      id := hc.id
      branch := hsourced branchAttribute hc.branch hd.branch }

/-- Every segment but that of the bundle kind stays unless it is a wildcard. -/
theorem segments_subsume (hkeeps : flags.keepsExisting = true) (hadd : flags.has .replace = false)
    {i : Nat} (hi : i ≠ 1) {x : String} (hx : c.identity.segments[i]? = some x)
    (hset : x ≠ UniqueId.wildcard) : (c.subsume flags d).identity.segments[i]? = some x := by
  have hkept := keeps_subsume hkeeps hadd c d
  have hscalar (f : Attribute mergeScalar) (hf : f ∈ scalars)
      (hx : some (UniqueId.segment (f.get c)) = some x) :
      some (UniqueId.segment (f.get (c.subsume flags d))) = some x := by
    rcases hkept.scalar_eq hf with hnone | hsame
    · rw [hnone] at hx
      exact absurd (Option.some.inj hx).symm hset
    · rw [hsame, hx]
  match i with
  | 0 => exact hx
  | 1 => exact absurd rfl hi
  | 2 => exact hscalar originAttribute originAttribute_mem hx
  | 3 =>
    have hkind : c.kind ≠ .unset := by
      intro hunset
      have hwildcard : UniqueId.wildcard = x := by
        simpa [UniqueId.segments, identity, hunset] using hx
      exact hset hwildcard.symm
    have hsame : (c.subsume flags d).identity.kind = c.identity.kind := hkept.kind hkind
    simpa [UniqueId.segments, hsame] using hx
  | 4 => exact hx
  | 5 => exact hscalar branchAttribute branchAttribute_mem hx
  | n + 6 => exact absurd hx (Option.some_ne_none x).symm

/-- So the unique IDs before and after agree where the bundle kinds do. -/
theorem agrees_subsume (hkeeps : flags.keepsExisting = true) (hadd : flags.has .replace = false)
    (hc : c.identity.Unbroken) (hd : d.identity.Unbroken) :
    UniqueId.agrees c.uniqueId (c.subsume flags d).uniqueId = true ↔
      agree .unset c.bundleKind (c.subsume flags d).bundleKind = true := by
  have hkept (i : Nat) (hi : i ≠ 1) {x y : String} (hx : c.identity.segments[i]? = some x)
      (hy : (c.subsume flags d).identity.segments[i]? = some y) :
      UniqueId.segmentMatches x y = true := by
    apply UniqueId.segmentMatches_of_kept
    intro hset
    exact Option.some.inj (hy.symm.trans (segments_subsume hkeeps hadd hi hx hset))
  have hagrees : UniqueId.agrees c.uniqueId (c.subsume flags d).uniqueId = true ↔ _ :=
    hc.agrees_iff (unbroken_subsume hc hd)
  rw [hagrees, ← UniqueId.segmentMatches_word BundleKind.ofName?_name rfl]
  simp only [UniqueId.segments, List.zip_cons_cons, List.zip_nil_right, List.all_cons,
    List.all_nil, hkept 0 (by decide) rfl rfl, hkept 2 (by decide) rfl rfl,
    hkept 3 (by decide) rfl rfl, hkept 4 (by decide) rfl rfl, hkept 5 (by decide) rfl rfl,
    Bool.and_true, Bool.true_and]
  rfl

theorem Repackages.bundleKind_donor (h : Repackages flags c d) : d.bundleKind ≠ .package := by
  obtain ⟨b, bs, hd, hkind⟩ := h.first
  rwa [bundleKind_of_cons hd]

theorem Repackages.bundleKind_subsume (hadd : flags.has .replace = false)
    (h : Repackages flags c d) : (c.subsume flags d).bundleKind = d.bundleKind := by
  obtain ⟨b, bs, hd, -⟩ := h.first
  rw [bundleKind_subsume_of_nil hadd h.asked h.bundles hd, bundleKind_of_cons hd]

/-- Where existing values are to stay, taking over what a donor has only fills wildcards of a unique
ID, but for the bundle kind of a description that packages deliver: it comes to be that of the
first bundle that is taken over. The unique IDs before and after agree unless that bundle is of
another kind and the kind is known. -/
theorem uniqueId_subsume (hkeeps : flags.keepsExisting = true) (hadd : flags.has .replace = false)
    (hc : c.identity.Unbroken) (hd : d.identity.Unbroken) :
    (∀ (i : Nat) (x : String), (Text.fields '/' c.uniqueId)[i]? = some x → x ≠ UniqueId.wildcard →
      (Text.fields '/' (c.subsume flags d).uniqueId)[i]? = some x ∨ i = 1 ∧ Repackages flags c d) ∧
    (Repackages flags c d → (c.subsume flags d).bundleKind = d.bundleKind) ∧
    (UniqueId.agrees c.uniqueId (c.subsume flags d).uniqueId = true ↔
      ¬ (Repackages flags c d ∧ d.bundleKind ≠ .unset)) := by
  have hbefore : Text.fields '/' c.uniqueId = c.identity.segments := hc.fields_render
  have hafter : Text.fields '/' (c.subsume flags d).uniqueId =
      (c.subsume flags d).identity.segments := (unbroken_subsume hc hd).fields_render
  refine ⟨?_, fun h => h.bundleKind_subsume hadd, ?_⟩
  · intro i x hx hset
    rw [hbefore] at hx
    rw [hafter]
    by_cases hi : i = 1
    · by_cases hrepackages : Repackages flags c d
      · exact .inr ⟨hi, hrepackages⟩
      · left
        subst hi
        rcases bundleKind_subsume hkeeps hadd hrepackages with hunset | hkept
        · have hwildcard : UniqueId.wildcard = x := by
            simpa [UniqueId.segments, identity, hunset] using hx
          exact absurd hwildcard.symm hset
        · have hsame : (c.subsume flags d).identity.bundleKind = c.identity.bundleKind := hkept
          simpa [UniqueId.segments, hsame] using hx
    · exact .inl (segments_subsume hkeeps hadd hi hx hset)
  · rw [agrees_subsume hkeeps hadd hc hd]
    by_cases hrepackages : Repackages flags c d
    · have hown : c.bundleKind = .package := by
        rw [bundleKind_of_nil hrepackages.bundles, if_neg hrepackages.pkgnames]
      rw [hrepackages.bundleKind_subsume hadd, hown]
      simp [agree, hrepackages, hrepackages.bundleKind_donor.symm]
    · have hkept := bundleKind_subsume hkeeps hadd hrepackages
      refine iff_of_true ?_ fun h => hrepackages h.1
      rcases hkept with hunset | hkept
      · simp [agree, hunset]
      · simp [agree, hkept]

/-- A component that a package delivers. -/
def packaged : Component := { id := some "a", pkgnames := ["p"] }

/-- What takes the component over from a bundle. -/
def bundled : Component := { bundles := [⟨.flatpak, "a", none, none⟩] }

/-- Takes over bundles where none are there. -/
def bundlesKept : SubsumeFlags := .ofList [.bundles, .noOverwrite]

/-- A package comes to be a bundle. -/
theorem bundleKind_packaged :
    bundlesKept.keepsExisting = true ∧ bundlesKept.has .replace = false ∧
      packaged.identity.Unbroken ∧ bundled.identity.Unbroken ∧
      (packaged.subsume bundlesKept bundled).bundleKind = .flatpak := by
  have hkeeps : bundlesKept.keepsExisting = true := rfl
  have hadd : bundlesKept.has .replace = false := rfl
  have hpackaged : packaged.identity.Unbroken := by decide +kernel
  have hbundled : bundled.identity.Unbroken := by decide +kernel
  have hrepackages : Repackages bundlesKept packaged bundled :=
    ⟨rfl, rfl, by decide, _, [], rfl, by decide⟩
  have htaken := (uniqueId_subsume hkeeps hadd hpackaged hbundled).2.1 hrepackages
  exact ⟨hkeeps, hadd, hpackaged, hbundled, htaken⟩

/-- The bundle kind of the package was no wildcard, and the unique IDs do not agree. -/
theorem bundleKind_lost :
    bundlesKept.keepsExisting = true ∧ bundlesKept.has .replace = false ∧
      packaged.identity.Unbroken ∧ bundled.identity.Unbroken ∧
      packaged.uniqueId = "*/package/*/*/a/*" ∧
      (packaged.subsume bundlesKept bundled).uniqueId = "*/flatpak/*/*/a/*" ∧
      UniqueId.agrees packaged.uniqueId (packaged.subsume bundlesKept bundled).uniqueId = false := by
  decide +kernel

end Component

end SoftwareCatalog
