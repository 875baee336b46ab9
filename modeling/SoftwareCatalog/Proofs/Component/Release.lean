import Mathlib.Data.List.Basic
import SoftwareCatalog.Proofs.Component.Collection
import SoftwareCatalog.Proofs.Component.Reconcile

namespace SoftwareCatalog

namespace Release

theorem absorb_self (r : Release) : r.absorb r = r := by
  have hlocations : r.locations.foldl addNew r.locations = r.locations :=
    foldl_addNew_of_subset fun _ h => h
  ext1 <;> simp [absorb, hlocations]

/-- Where both say nothing they say the same. -/
theorem absorb_absorb (r s : Release) : r.absorb (s.absorb r) = r.absorb s := by
  have hdescription (h : r.hasDescription = false) (k : s.hasDescription = false) :
      r.description = s.description := by
    simp only [hasDescription, Bool.not_eq_false', TextMap.isEmpty, List.isEmpty_iff] at h k
    exact TextMap.ext (h.trans k.symm)
  ext1
  · rfl
  · by_cases h : r.kind = .unset <;> by_cases k : s.kind = .unset <;> simp [absorb, h, k]
  · by_cases h : r.timestamp = 0 <;> by_cases k : s.timestamp = 0 <;> simp [absorb, h, k]
  · by_cases h : r.urgency = .unset <;> by_cases k : s.urgency = .unset <;> simp [absorb, h, k]
  · cases h : r.hasDescription <;> cases k : s.hasDescription <;> simp [absorb, h, k]
    exact hdescription h k
  · exact foldl_addNew_absorb r.locations s.locations

theorem version_eq_of_same {r s : Release} (h : r.same s = true) : r.version = s.version := by
  simp only [same, Bool.and_eq_true, beq_iff_eq] at h
  exact h.2

theorem same_iff {r s : Release} {v : String} (h : s.version = some v) :
    r.same s = true ↔ r.version = some v := by
  constructor
  · intro hsame
    rw [version_eq_of_same hsame, h]
  · intro hr
    simp [same, hr, h]

/-- What two lists say of one version, if anything. -/
def combine (r s : Option Release) : Option Release :=
  match s with
  | none => r
  | some s => some (r.elim s (·.absorb s))

theorem combine_absorb (r s : Option Release) : combine r (combine s r) = combine r s := by
  cases r with
  | none => cases s <;> rfl
  | some r =>
    cases s with
    | none => exact congrArg some (absorb_self r)
    | some s => exact congrArg some (absorb_absorb r s)

end Release

/-- The releases with a version in their order. -/
def versioned (rs : List Release) : List Release := rs.filter (·.version.isSome)

/-- The first release with a version. -/
def releaseOf (rs : List Release) (v : String) : Option Release :=
  rs.find? fun r => r.version == some v

variable {as bs : List Release} {r : Release} {v : String}

theorem releaseOf_cons (a : Release) (as : List Release) (v : String) :
    releaseOf (a :: as) v = if a.version = some v then some a else releaseOf as v := by
  by_cases h : a.version = some v
  · simp [releaseOf, h]
  · have hb : (a.version == some v) = false := by simpa using h
    rw [if_neg h, releaseOf, List.find?_cons, hb]
    rfl

theorem releaseOf_eq_none_iff : releaseOf as v = none ↔ v ∉ versions as := by
  simp [releaseOf, mem_versions]

theorem versions_cons (a : Release) (as : List Release) :
    versions (a :: as) = a.version.toList ++ versions as := by
  unfold versions
  cases h : a.version <;> simp [h]

theorem versions_addTo (as : List Release) (r : Release) :
    versions (Release.addTo as r) = r.version.toList.foldl addNew (versions as) := by
  induction as with
  | nil => cases h : r.version <;> simp [Release.addTo, versions, h, addNew, addUnlessSame]
  | cons a as ih =>
    unfold Release.addTo
    by_cases hsame : a.same r
    · -- the version of the entry that absorbs the release is listed already
      have heq := Release.version_eq_of_same hsame
      have hsome : a.version.isSome = true := by
        simp only [Release.same, Bool.and_eq_true] at hsame
        exact hsame.1
      obtain ⟨v, hv⟩ := Option.isSome_iff_exists.1 hsome
      have hr : r.version = some v := heq ▸ hv
      have habsorbed : (a.absorb r).version = a.version := rfl
      rw [if_pos hsame, versions_cons, versions_cons, habsorbed]
      simp [hv, hr, addNew, addUnlessSame]
    · rw [if_neg hsame, versions_cons, ih, versions_cons]
      cases hr : r.version with
      | none => rfl
      | some v =>
        have hne : a.version ≠ some v := fun h => hsame ((Release.same_iff hr).2 h)
        simp only [Option.toList_some, List.foldl_cons, List.foldl_nil, addNew, addUnlessSame,
          List.any_append]
        by_cases hin : v ∈ versions as <;> simp [hne, hin]

theorem versions_foldl_addTo (as bs : List Release) :
    versions (bs.foldl Release.addTo as) = (versions bs).foldl addNew (versions as) := by
  induction bs generalizing as with
  | nil => rfl
  | cons b bs ih =>
    rw [List.foldl_cons, ih, versions_addTo, versions_cons, List.foldl_append]

theorem addTo_of_not_same (h : ∀ a ∈ as, a.same r = false) : Release.addTo as r = as ++ [r] := by
  induction as with
  | nil => rfl
  | cons a as ih =>
    rw [List.forall_mem_cons] at h
    rw [Release.addTo, h.1, ih h.2]
    rfl

/-- Releases of which no version is listed twice are appended one after the other. -/
theorem foldl_addTo_of_nodup (h : (versions (as ++ bs)).Nodup) :
    bs.foldl Release.addTo as = as ++ bs := by
  induction bs generalizing as with
  | nil => simp
  | cons b bs ih =>
    have hnew : ∀ a ∈ as, a.same b = false := by
      intro a ha
      rw [Bool.eq_false_iff]
      intro hsame
      simp only [Release.same, Bool.and_eq_true, beq_iff_eq, Option.isSome_iff_exists] at hsame
      obtain ⟨⟨v, hv⟩, heq⟩ := hsame
      have hb : v ∈ versions (b :: bs) := mem_versions.2 ⟨b, List.mem_cons_self, heq ▸ hv⟩
      rw [versions, List.filterMap_append, List.nodup_append] at h
      exact h.2.2 v (mem_versions.2 ⟨a, ha, hv⟩) v hb rfl
    rw [List.foldl_cons, addTo_of_not_same hnew, ih (by simpa using h)]
    simp

theorem nodup_versions_foldl_addTo (h : (versions as).Nodup) (bs : List Release) :
    (versions (bs.foldl Release.addTo as)).Nodup := by
  rw [versions_foldl_addTo]
  exact nodup_foldl_addNew h _

theorem releaseOf_addTo (as : List Release) (r : Release) (v : String) :
    releaseOf (Release.addTo as r) v =
      if r.version = some v then some ((releaseOf as v).elim r (·.absorb r))
      else releaseOf as v := by
  induction as with
  | nil => simp [Release.addTo, releaseOf]
  | cons a as ih =>
    unfold Release.addTo
    by_cases hr : r.version = some v
    · by_cases ha : a.version = some v
      · have hsame := (Release.same_iff hr).2 ha
        have habsorbed : (a.absorb r).version = some v := ha
        simp [hsame, hr, releaseOf_cons, ha, habsorbed]
      · have hsame : ¬ a.same r = true := fun h => ha ((Release.same_iff hr).1 h)
        rw [if_neg hsame, releaseOf_cons, if_neg ha, ih, releaseOf_cons, if_neg ha]
    · rw [if_neg hr] at ih ⊢
      split
      · rename_i hsame
        have ha : a.version ≠ some v := fun h => hr ((Release.version_eq_of_same hsame) ▸ h)
        have habsorbed : (a.absorb r).version ≠ some v := ha
        rw [releaseOf_cons, if_neg habsorbed, releaseOf_cons, if_neg ha]
      · rw [releaseOf_cons, ih, releaseOf_cons]

theorem releaseOf_foldl_addTo (h : (versions bs).Nodup) (as : List Release) (v : String) :
    releaseOf (bs.foldl Release.addTo as) v =
      Release.combine (releaseOf as v) (releaseOf bs v) := by
  induction bs generalizing as with
  | nil => rfl
  | cons b bs ih =>
    rw [versions_cons, List.nodup_append] at h
    obtain ⟨-, hrest, hapart⟩ := h
    rw [List.foldl_cons, ih hrest, releaseOf_addTo, releaseOf_cons]
    by_cases hb : b.version = some v
    · have hlater : releaseOf bs v = none :=
        releaseOf_eq_none_iff.2 fun hin => hapart v (by simp [hb]) v hin rfl
      simp [hb, hlater, Release.combine]
    · simp [hb]

/-- The order of the versions and what is said of each make up the list. -/
theorem filterMap_releaseOf (h : (versions as).Nodup) :
    (versions as).filterMap (releaseOf as) = versioned as := by
  induction as with
  | nil => rfl
  | cons a as ih =>
    rw [versions_cons, List.nodup_append] at h
    obtain ⟨-, hrest, hapart⟩ := h
    have hlater : (versions as).filterMap (releaseOf (a :: as)) = versioned as := by
      rw [← ih hrest]
      apply List.filterMap_congr
      intro v hv
      have hne : a.version ≠ some v := fun ha => hapart v (by simp [ha]) v hv rfl
      rw [releaseOf_cons, if_neg hne]
    rw [versions_cons, List.filterMap_append, hlater]
    cases ha : a.version with
    | none => simp [versioned, ha]
    | some v => simp [versioned, releaseOf_cons, ha]

/-- A list takes nothing else from another one that absorbed its releases before; only releases
without a version are repeated. -/
theorem versioned_absorb (ha : (versions as).Nodup) (hb : (versions bs).Nodup) :
    versioned ((as.foldl Release.addTo bs).foldl Release.addTo as) =
      versioned (bs.foldl Release.addTo as) := by
  have hback : (versions (as.foldl Release.addTo bs)).Nodup := nodup_versions_foldl_addTo hb as
  have hversions : versions ((as.foldl Release.addTo bs).foldl Release.addTo as) =
      versions (bs.foldl Release.addTo as) := by
    simp only [versions_foldl_addTo]
    exact foldl_addNew_absorb _ _
  rw [← filterMap_releaseOf (nodup_versions_foldl_addTo ha _),
    ← filterMap_releaseOf (nodup_versions_foldl_addTo ha _), hversions]
  apply List.filterMap_congr
  intro v _
  rw [releaseOf_foldl_addTo hback, releaseOf_foldl_addTo ha, releaseOf_foldl_addTo hb]
  exact Release.combine_absorb _ _

theorem mem_addTo_cases (h : r ∈ Release.addTo as e) :
    r ∈ as ∨ r = e ∨ ∃ a ∈ as, a.version = e.version ∧ r = a.absorb e := by
  induction as with
  | nil => exact .inr (.inl (List.mem_singleton.1 h))
  | cons a as ih =>
    unfold Release.addTo at h
    split at h
    · rename_i hsame
      rcases List.mem_cons.1 h with rfl | h
      · exact .inr (.inr ⟨a, List.mem_cons_self, Release.version_eq_of_same hsame, rfl⟩)
      · exact .inl (List.mem_cons_of_mem a h)
    · rcases List.mem_cons.1 h with rfl | h
      · exact .inl List.mem_cons_self
      · rcases ih h with hin | heq | ⟨b, hb, hversion, heq⟩
        · exact .inl (List.mem_cons_of_mem a hin)
        · exact .inr (.inl heq)
        · exact .inr (.inr ⟨b, List.mem_cons_of_mem a hb, hversion, heq⟩)

theorem mem_addTo_of_unversioned (h : r.version = none) (e : Release) :
    r ∈ Release.addTo as e ↔ r ∈ as ∨ r = e := by
  induction as with
  | nil => simp [Release.addTo]
  | cons a as ih =>
    unfold Release.addTo
    by_cases hsame : a.same e
    · -- neither the entry that absorbs nor what it absorbs is without a version
      have hsome : a.version.isSome = true := by
        simp only [Release.same, Bool.and_eq_true] at hsame
        exact hsame.1
      have hne {s : Release} (hs : s.version = a.version) : r ≠ s := by
        intro heq
        rw [← hs, ← heq, h] at hsome
        cases hsome
      have hapart : r ≠ a ∧ r ≠ a.absorb e ∧ r ≠ e :=
        ⟨hne rfl, hne rfl, hne (Release.version_eq_of_same hsame).symm⟩
      simp [hsame, hapart]
    · rw [if_neg hsame, List.mem_cons, List.mem_cons, ih, or_assoc]

theorem mem_foldl_addTo_of_unversioned (h : r.version = none) :
    r ∈ bs.foldl Release.addTo as ↔ r ∈ as ∨ r ∈ bs := by
  induction bs generalizing as with
  | nil => simp
  | cons b bs ih =>
    rw [List.foldl_cons, ih, mem_addTo_of_unversioned h, List.mem_cons]
    exact or_assoc

/-- All that a release says is said by releases of its version among the sources. -/
structure Pieced (source : Release → Prop) (r : Release) : Prop where
  kind : ∃ s, source s ∧ s.version = r.version ∧ s.kind = r.kind
  timestamp : ∃ s, source s ∧ s.version = r.version ∧ s.timestamp = r.timestamp
  urgency : ∃ s, source s ∧ s.version = r.version ∧ s.urgency = r.urgency
  description : ∃ s, source s ∧ s.version = r.version ∧ s.description = r.description
  locations : ∀ l ∈ r.locations, ∃ s, source s ∧ s.version = r.version ∧ l ∈ s.locations

namespace Pieced

variable {source other : Release → Prop} {s : Release}

theorem of_source (h : source r) : Pieced source r :=
  ⟨⟨r, h, rfl, rfl⟩, ⟨r, h, rfl, rfl⟩, ⟨r, h, rfl, rfl⟩, ⟨r, h, rfl, rfl⟩,
    fun _ hl => ⟨r, h, rfl, hl⟩⟩

theorem absorb (h : Pieced source r) (k : Pieced source s) (hversion : r.version = s.version) :
    Pieced source (r.absorb s) := by
  have hback : (r.absorb s).version = s.version := hversion
  refine ⟨?_, ?_, ?_, ?_, ?_⟩
  · by_cases hr : r.kind = .unset
    · rw [hback]
      simpa [Release.absorb, hr] using k.kind
    · simpa [Release.absorb, hr] using h.kind
  · by_cases hr : r.timestamp = 0
    · rw [hback]
      simpa [Release.absorb, hr] using k.timestamp
    · simpa [Release.absorb, hr] using h.timestamp
  · by_cases hr : r.urgency = .unset
    · rw [hback]
      simpa [Release.absorb, hr] using k.urgency
    · simpa [Release.absorb, hr] using h.urgency
  · by_cases hr : r.hasDescription
    · simpa [Release.absorb, hr] using h.description
    · rw [hback]
      simpa [Release.absorb, hr] using k.description
  · intro l hl
    rcases mem_foldl_addNew.1 hl with hl | hl
    · exact h.locations l hl
    · rw [hback]
      exact k.locations l hl

/-- What is pieced together from pieces is pieced together from where these come from. -/
theorem trans (h : ∀ s, source s → Pieced other s) (k : Pieced source r) : Pieced other r := by
  refine ⟨?_, ?_, ?_, ?_, ?_⟩
  · obtain ⟨s, hs, hversion, hkind⟩ := k.kind
    rw [← hversion, ← hkind]
    exact (h s hs).kind
  · obtain ⟨s, hs, hversion, htimestamp⟩ := k.timestamp
    rw [← hversion, ← htimestamp]
    exact (h s hs).timestamp
  · obtain ⟨s, hs, hversion, hurgency⟩ := k.urgency
    rw [← hversion, ← hurgency]
    exact (h s hs).urgency
  · obtain ⟨s, hs, hversion, hdescription⟩ := k.description
    rw [← hversion, ← hdescription]
    exact (h s hs).description
  · intro l hl
    obtain ⟨s, hs, hversion, hin⟩ := k.locations l hl
    rw [← hversion]
    exact (h s hs).locations l hin

end Pieced

theorem pieced_foldl_addTo (h : r ∈ bs.foldl Release.addTo as) :
    Pieced (fun s => s ∈ as ∨ s ∈ bs) r := by
  induction bs generalizing as with
  | nil => exact .of_source (.inl h)
  | cons b bs ih =>
    refine Pieced.trans ?_ (ih h)
    intro s hs
    rcases hs with hs | hs
    · have hb : Pieced (fun s => s ∈ as ∨ s ∈ b :: bs) b := .of_source (.inr List.mem_cons_self)
      rcases mem_addTo_cases hs with hin | rfl | ⟨a, ha, hversion, rfl⟩
      · exact .of_source (.inl hin)
      · exact hb
      · exact Pieced.absorb (.of_source (.inl ha)) hb hversion
    · exact .of_source (.inr (List.mem_cons_of_mem b hs))

end SoftwareCatalog
