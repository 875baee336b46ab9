import SoftwareCatalog.Proofs.Component.Enrichment
import SoftwareCatalog.Proofs.Component.Ruling

namespace SoftwareCatalog.Component

variable {flags : SubsumeFlags}

section Agree

variable {α : Type} [DecidableEq α] {unset a b c : α}

theorem agree_comm (unset a b : α) : agree unset a b = agree unset b a := by
  unfold agree
  by_cases ha : a = unset <;> by_cases hb : b = unset <;> simp [ha, hb, eq_comm]

/-- An attribute that keeps its value, if it had one, agrees with no more than before. -/
theorem agree_of_kept (h : a = unset ∨ b = a) (hb : agree unset b c = true) :
    agree unset a c = true := by
  rcases h with ha | rfl
  · simp [agree, ha]
  · exact hb

end Agree

theorem sameIdentity_comm (c d : Component) : c.sameIdentity d = d.sameIdentity c := by
  unfold sameIdentity agree?
  simp only [agree_comm _ c.scope, agree_comm _ c.bundleKind, agree_comm _ c.origin,
    agree_comm _ c.kind, agree_comm _ c.id, agree_comm _ c.branch,
    agree_comm _ c.architectures.head?]

theorem not_sameIdentity_of_id {c d : Component} {x y : String} (hc : c.id = some x)
    (hd : d.id = some y) (hne : x ≠ y) : c.sameIdentity d = false := by
  simp [sameIdentity, agree?, agree, hc, hd, hne]

/-- The attributes of `c` that are set are those of `d`. -/
structure Refines (d c : Component) : Prop where
  scope : c.scope = .unset ∨ d.scope = c.scope
  bundleKind : c.bundleKind = .unset ∨ d.bundleKind = c.bundleKind
  origin : c.origin = none ∨ d.origin = c.origin
  kind : c.kind = .unset ∨ d.kind = c.kind
  id : c.id = none ∨ d.id = c.id
  branch : c.branch = none ∨ d.branch = c.branch
  architecture : c.architectures.head? = none ∨ d.architectures.head? = c.architectures.head?

/-- A description that sets more attributes describes the same as fewer others. -/
theorem Refines.sameIdentity {c d e : Component} (h : Refines d c)
    (k : d.sameIdentity e = true) : c.sameIdentity e = true := by
  simp only [Component.sameIdentity, agree?, Bool.and_eq_true, and_assoc] at k ⊢
  obtain ⟨hscope, hbundle, horigin, hkind, hid, hbranch, harchitecture⟩ := k
  exact ⟨agree_of_kept h.scope hscope, agree_of_kept h.bundleKind hbundle,
    agree_of_kept h.origin horigin, agree_of_kept h.kind hkind, agree_of_kept h.id hid,
    agree_of_kept h.branch hbranch, agree_of_kept h.architecture harchitecture⟩

theorem refines_subsume_salvage (c d : Component) : Refines (c.subsume salvage d) c :=
  ⟨.inr rfl, .inr rfl, .inr rfl, .inr rfl, .inr rfl, .inr rfl, .inr rfl⟩

/-- A description that packages deliver takes over bundles, of which the first one is of another
kind. -/
structure Repackages (flags : SubsumeFlags) (c d : Component) : Prop where
  asked : flags.has .bundles = true
  bundles : c.bundles = []
  pkgnames : c.pkgnames ≠ []
  first : ∃ b bs, d.bundles = b :: bs ∧ b.kind ≠ .package

/-- A description that packages deliver takes over a bundle of no kind, which comes to be its first
bundle. -/
structure Relabels (c d : Component) : Prop where
  bundles : c.bundles = []
  pkgnames : c.pkgnames ≠ []
  unset : ∃ b bs, d.bundles = b :: bs ∧ b.kind = .unset

theorem bundleKind_of_cons {c : Component} {b : Bundle} {bs : List Bundle}
    (h : c.bundles = b :: bs) : c.bundleKind = b.kind := by
  unfold bundleKind
  rw [h]

theorem bundleKind_of_nil {c : Component} (h : c.bundles = []) :
    c.bundleKind = if c.pkgnames = [] then .unset else .package := by
  unfold bundleKind
  rw [h]

theorem Repackages.of_agree {c d : Component}
    (hagree : agree .unset c.bundleKind d.bundleKind = true) (h : Repackages flags c d) :
    Relabels c d := by
  obtain ⟨b, bs, hd, hkind⟩ := h.first
  refine ⟨h.bundles, h.pkgnames, b, bs, hd, ?_⟩
  rw [bundleKind_of_nil h.bundles, if_neg h.pkgnames, bundleKind_of_cons hd] at hagree
  by_contra hset
  simp [agree, hset, Ne.symm hkind] at hagree

theorem bundles_subsume_of_none {c d : Component}
    (h : ¬ (flags.has .bundles = true ∧ d.bundles ≠ [])) :
    (c.subsume flags d).bundles = c.bundles := by
  have hmerged : (c.subsume flags d).bundles = if flags.has .bundles then
      mergeEntries (addUnlessSame Bundle.same) flags c.bundles d.bundles else c.bundles := rfl
  rw [hmerged]
  split
  · rename_i hasked
    have hempty : d.bundles = [] := by
      by_contra hd
      exact h ⟨hasked, hd⟩
    rw [hempty]
    rfl
  · rfl

/-- Where there are no bundles the first one of the donor comes to be the first one. -/
theorem bundleKind_subsume_of_nil (hadd : flags.has .replace = false)
    (hasked : flags.has .bundles = true) {c d : Component} (hc : c.bundles = []) {b : Bundle}
    {bs : List Bundle} (hd : d.bundles = b :: bs) : (c.subsume flags d).bundleKind = b.kind := by
  have hmerged : (c.subsume flags d).bundles =
      (b :: bs).foldl (addUnlessSame Bundle.same) [] := by
    rw [← hc, ← hd, ← mergeEntries_eq_foldl hadd]
    exact if_pos hasked
  obtain ⟨more, happend, -⟩ := foldl_addUnlessSame_eq_append Bundle.same [b] bs
  exact bundleKind_of_cons (hmerged.trans happend)

/-- The bundles of a description go before those that it takes over. -/
theorem bundleKind_subsume (hkeeps : flags.keepsExisting = true)
    (hadd : flags.has .replace = false) {c d : Component} (h : ¬ Repackages flags c d) :
    c.bundleKind = .unset ∨ (c.subsume flags d).bundleKind = c.bundleKind := by
  have hkept := keeps_subsume hkeeps hadd c d
  cases hown : c.bundles with
  | cons b bs =>
    right
    have hbefore : c.bundles <+: (c.subsume flags d).bundles :=
      hkept.collection bundleCollection (by simp [collections])
    obtain ⟨more, happend⟩ := hbefore
    rw [hown, List.cons_append] at happend
    rw [bundleKind_of_cons happend.symm, bundleKind_of_cons hown]
  | nil =>
    rw [bundleKind_of_nil hown]
    by_cases hpkgnames : c.pkgnames = []
    · exact .inl (if_pos hpkgnames)
    · right
      rw [if_neg hpkgnames]
      by_cases htaken : flags.has .bundles = true ∧ d.bundles ≠ []
      · obtain ⟨b, bs, hd⟩ := List.exists_cons_of_ne_nil htaken.2
        rw [bundleKind_subsume_of_nil hadd htaken.1 hown hd]
        by_contra hother
        exact h ⟨htaken.1, hown, hpkgnames, b, bs, hd, hother⟩
      · -- no bundle comes in, so the package names still tell the kind
        have hnone : (c.subsume flags d).bundles = [] := (bundles_subsume_of_none htaken).trans hown
        have hbefore : c.pkgnames <+: (c.subsume flags d).pkgnames :=
          hkept.list { flag := .pkgnames, get := (·.pkgnames) } (by simp [lists])
        rw [bundleKind_of_nil hnone, if_neg (hbefore.ne_nil hpkgnames)]

/-- Where existing values are to stay, nothing that a description takes over changes what it has
set, but for the bundle kind of one that packages deliver. -/
theorem refines_subsume (hkeeps : flags.keepsExisting = true) (hadd : flags.has .replace = false)
    {c d : Component} (h : ¬ Repackages flags c d) : Refines (c.subsume flags d) c := by
  have hkept := keeps_subsume hkeeps hadd c d
  have harchitectures : c.architectures <+: (c.subsume flags d).architectures :=
    hkept.list { flag := .architectures, get := (·.architectures) } (by simp [lists])
  refine
    { scope := .inr rfl
      bundleKind := bundleKind_subsume hkeeps hadd h
      origin := hkept.scalar_eq originAttribute_mem
      kind := or_iff_not_imp_left.2 hkept.kind
      id := .inr rfl
      branch := hkept.scalar_eq branchAttribute_mem
      architecture := ?_ }
  obtain ⟨more, happend⟩ := harchitectures
  rw [← happend]
  cases c.architectures with
  | nil => exact .inl rfl
  | cons a as => exact .inr rfl

end SoftwareCatalog.Component
