import SoftwareCatalog.Proofs.Component.Attribute
import SoftwareCatalog.Proofs.Component.Texts

namespace SoftwareCatalog

variable {flags back : SubsumeFlags}

/-- A set value stays where existing values are kept. -/
theorem mergeScalar_of_keepsExisting (h : flags.keepsExisting = true)
    (target donor : Option String) : mergeScalar flags target donor = target.or donor := by
  unfold mergeScalar
  cases target <;> cases donor <;> simp [h]

theorem mergeComponentKind_of_keepsExisting (h : flags.keepsExisting = true)
    (target donor : ComponentKind) :
    mergeComponentKind flags target donor = if target = .unset then donor else target := by
  by_cases ht : target = .unset <;> by_cases hd : donor = .unset <;>
    simp [mergeComponentKind, h, ht, hd]

theorem mergeScalar_absorb (h : flags.keepsExisting = true) (h' : back.keepsExisting = true)
    (target donor : Option String) :
    mergeScalar back target (mergeScalar flags donor target) = mergeScalar flags target donor := by
  simp only [mergeScalar_of_keepsExisting h, mergeScalar_of_keepsExisting h']
  cases target <;> cases donor <;> rfl

theorem mergeComponentKind_absorb (h : flags.keepsExisting = true) (h' : back.keepsExisting = true)
    (target donor : ComponentKind) :
    mergeComponentKind back target (mergeComponentKind flags donor target) =
      mergeComponentKind flags target donor := by
  simp only [mergeComponentKind_of_keepsExisting h, mergeComponentKind_of_keepsExisting h']
  by_cases ht : target = .unset <;> by_cases hd : donor = .unset <;> simp [ht, hd]

theorem FlagSet.union_absorb {ι : Type} (a b : FlagSet ι) : a.union (b.union a) = a.union b := by
  ext i
  simp only [has_union]
  cases a.has i <;> simp

theorem mergeEntries_absorb {α : Type} {add : List α → α → List α}
    (hadd : flags.has .replace = false) (hadd' : back.has .replace = false)
    (habsorb : ∀ as bs : List α, (as.foldl add bs).foldl add as = bs.foldl add as)
    (target donor : List α) :
    mergeEntries add back target (mergeEntries add flags donor target) =
      mergeEntries add flags target donor := by
  simp only [mergeEntries_eq_foldl hadd, mergeEntries_eq_foldl hadd']
  exact habsorb target donor

/-- No key has different values in two maps. -/
def TextMap.Compatible {α : Type} (m n : TextMap α) : Prop :=
  ∀ k v w, m.get? k = some v → n.get? k = some w → v = w

/-- Two maps that prefer the values of one of two others each are equal where these agree. -/
theorem TextMap.eq_iff_compatible {α : Type} {m n p q : TextMap α}
    (hm : ∀ k, m.get? k = (p.get? k).or (q.get? k))
    (hn : ∀ k, n.get? k = (q.get? k).or (p.get? k)) : m = n ↔ p.Compatible q := by
  constructor
  · intro heq k v w hv hw
    have hk := (hm k).symm.trans (heq ▸ hn k)
    rw [hv, hw] at hk
    exact Option.some.inj hk
  · intro h
    apply ext_get?
    intro k
    rw [hm, hn]
    cases hv : p.get? k with
    | none => simp
    | some v =>
      cases hw : q.get? k with
      | none => rfl
      | some w => exact congrArg some (h k v w hv hw)

/-- An attribute that absorbs itself takes nothing from a donor that took it over before. -/
theorem Attribute.get_absorb {α : Type} {merge : SubsumeFlags → α → α → α} (f : Attribute merge)
    (hflags : flags.Full) (hback : back.Full) {c d : Component}
    (habsorb : merge back (f.get c) (merge flags (f.get d) (f.get c)) =
      merge flags (f.get c) (f.get d)) :
    f.get (c.subsume back (d.subsume flags c)) = f.get (c.subsume flags d) := by
  rw [f.get_subsume hback, f.get_subsume hflags, f.get_subsume hflags]
  exact habsorb

namespace Component

/-- Two descriptions say the same of everything but the values under keys: every attribute is
equal, every look-up of a translation, and the releases with a version in their order. -/
structure Concur (a b : Component) : Prop where
  id : a.id = b.id
  scope : a.scope = b.scope
  priority : a.priority = b.priority
  mergeKind : a.mergeKind = b.mergeKind
  faults : a.faults = b.faults
  kind : a.kind = b.kind
  hallmarks : a.hallmarks = b.hallmarks
  scalar : ∀ f ∈ scalars, f.get a = f.get b
  text : ∀ f ∈ translations, ∀ locale, (f.get a).localized locale = (f.get b).localized locale
  keywords : a.keywords = b.keywords
  list : ∀ f ∈ lists, f.get a = f.get b
  collection : ∀ k ∈ collections, k.get a = k.get b
  release : versioned a.releases = versioned b.releases

theorem Concur.uniqueId {a b : Component} (h : Concur a b) : a.uniqueId = b.uniqueId := by
  have horigin : a.origin = b.origin :=
    h.scalar { flag := .origin, get := (·.origin) } (by simp [scalars])
  have hbranch : a.branch = b.branch :=
    h.scalar { flag := .branch, get := (·.branch) } (by simp [scalars])
  have hpkgnames : a.pkgnames = b.pkgnames :=
    h.list { flag := .pkgnames, get := (·.pkgnames) } (by simp [lists])
  have hbundles : a.bundles = b.bundles := h.collection bundleCollection (by simp [collections])
  simp only [Component.uniqueId, identity, bundleKind, h.scope, h.kind, h.id, horigin, hbranch,
    hpkgnames, hbundles]

theorem Concur.attach {a b : Component} (h : Concur a b) (addons addons' : List String)
    (tokens tokens' : Option Search.TokenCache) :
    Concur { a with addons, tokens } { b with addons := addons', tokens := tokens' } where
  id := h.id
  scope := h.scope
  priority := h.priority
  mergeKind := h.mergeKind
  faults := h.faults
  kind := h.kind
  hallmarks := h.hallmarks
  scalar f hf := by
    rw [f.get_attach a addons tokens, f.get_attach b addons' tokens', h.scalar f hf]
  text f hf := by
    rw [f.get_attach a addons tokens, f.get_attach b addons' tokens']
    exact h.text f hf
  keywords := h.keywords
  list f hf := by
    rw [f.get_attach a addons tokens, f.get_attach b addons' tokens', h.list f hf]
  collection k hk := by
    rw [k.get_attach a addons tokens, k.get_attach b addons' tokens', h.collection k hk]
  release := h.release

/-- It makes hardly a difference whether a description takes over what another one says, or what
is left of the other one once that took over its own: only a value under a key is then no longer
the one that the other description had. -/
theorem concur_absorb (hflags : flags.Full) (hdedupe : flags.has .dedupe = true)
    (hback : back.Full) (hdedupe' : back.has .dedupe = true) {c d : Component}
    (hc : (versions c.releases).Nodup) (hd : (versions d.releases).Nodup) :
    Concur (c.subsume back (d.subsume flags c)) (c.subsume flags d) := by
  have hkeeps : flags.keepsExisting = true := by simp [SubsumeFlags.keepsExisting, hdedupe]
  have hkeeps' : back.keepsExisting = true := by simp [SubsumeFlags.keepsExisting, hdedupe']
  refine ⟨rfl, rfl, rfl, rfl, rfl, ?_, ?_, ?_, ?_, ?_, ?_, ?_, ?_⟩
  · apply kindAttribute.get_absorb hflags hback
    exact mergeComponentKind_absorb hkeeps hkeeps' _ _
  · apply hallmarkAttribute.get_absorb hflags hback
    exact FlagSet.union_absorb _ _
  · intro f _
    apply f.get_absorb hflags hback
    exact mergeScalar_absorb hkeeps hkeeps' _ _
  · intro f _ locale
    rw [f.get_subsume hback, f.get_subsume hflags, f.get_subsume hflags]
    exact localized_absorb hflags.adds hdedupe hback.adds hdedupe' _ _ locale
  · apply keywordAttribute.get_absorb hflags hback
    exact mergeKeywords_absorb hflags.adds hback.adds _ _
  · intro f _
    apply f.get_absorb hflags hback
    exact mergeEntries_absorb hflags.adds hback.adds foldl_addNew_absorb _ _
  · intro k _
    apply k.field.get_absorb hflags hback
    apply mergeEntries_absorb hflags.adds hback.adds
    exact foldl_addUnlessSame_absorb k.same_refl
  · simp only [releases_subsume_of_full hback, releases_subsume_of_full hflags]
    exact versioned_absorb hc hd

/-- A value under a key is that of the donor where nothing forbids to overwrite. -/
theorem get?_annotation_subsume (hflags : flags.Full) (hover : flags.has .noOverwrite = false)
    (f : Attribute fun flags => mergeText (flags.erase .dedupe)) (c d : Component) (k : String) :
    (f.get (c.subsume flags d)).get? k = ((f.get d).get? k).or ((f.get c).get? k) := by
  rw [f.get_subsume hflags]
  apply get?_mergeText_of_overwrite <;> simp [hflags.adds, hover]

/-- So a donor has lost its own when a description takes back what it had given. -/
theorem get?_annotation_absorb (hflags : flags.Full) (hover : flags.has .noOverwrite = false)
    (hback : back.Full) (hkeep : back.has .noOverwrite = true)
    (f : Attribute fun flags => mergeText (flags.erase .dedupe)) (c d : Component) (k : String) :
    (f.get (c.subsume back (d.subsume flags c))).get? k =
      ((f.get c).get? k).or ((f.get d).get? k) := by
  have hreturn : (f.get (c.subsume back (d.subsume flags c))).get? k =
      ((f.get c).get? k).or ((f.get (d.subsume flags c)).get? k) := by
    rw [f.get_subsume hback]
    apply get?_mergeText_of_keep <;> simp [hback.adds, hkeep]
  rw [hreturn, get?_annotation_subsume hflags hover]
  cases (f.get c).get? k <;> simp

end Component

end SoftwareCatalog
