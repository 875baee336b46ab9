import SoftwareCatalog.Proofs.Component.Absorption
import SoftwareCatalog.Proofs.Component.Joined

namespace SoftwareCatalog

variable {flags : SubsumeFlags}

theorem prefix_mergeEntries {α : Type} {same : α → α → Bool} (hadd : flags.has .replace = false)
    (target donor : List α) : target <+: mergeEntries (addUnlessSame same) flags target donor := by
  rw [mergeEntries_eq_foldl hadd]
  obtain ⟨more, heq, -⟩ := foldl_addUnlessSame_eq_append same target donor
  exact ⟨more, heq.symm⟩

theorem exists_same_mergeEntries {α : Type} {same : α → α → Bool} (hrefl : ∀ a, same a a = true)
    (hadd : flags.has .replace = false) (target donor : List α) :
    ∀ e ∈ donor, ∃ a ∈ mergeEntries (addUnlessSame same) flags target donor, same a e = true := by
  intro e he
  rw [mergeEntries_eq_foldl hadd]
  exact exists_same_foldl hrefl (.inr he)

theorem prefix_foldl_addNew {α : Type} [DecidableEq α] (as bs : List α) :
    as <+: bs.foldl addNew as := by
  obtain ⟨more, heq, -⟩ := foldl_addUnlessSame_eq_append (fun a b : α => decide (a = b)) as bs
  exact ⟨more, heq.symm⟩

namespace Release

/-- A release says what another one said, and maybe more. -/
structure Extends (r s : Release) : Prop where
  version : s.version = r.version
  description : r.hasDescription = true → s.description = r.description
  timestamp : r.timestamp ≠ 0 → s.timestamp = r.timestamp
  kind : r.kind ≠ .unset → s.kind = r.kind
  urgency : r.urgency ≠ .unset → s.urgency = r.urgency
  locations : r.locations <+: s.locations

theorem Extends.refl (r : Release) : r.Extends r :=
  ⟨rfl, fun _ => rfl, fun _ => rfl, fun _ => rfl, fun _ => rfl, List.prefix_refl _⟩

theorem Extends.trans {r s t : Release} (h : r.Extends s) (k : s.Extends t) : r.Extends t where
  version := k.version.trans h.version
  description hr := by
    have hs : s.hasDescription = true := by
      unfold hasDescription at hr ⊢
      rwa [h.description hr]
    exact (k.description hs).trans (h.description hr)
  timestamp hr := (k.timestamp (h.timestamp hr ▸ hr)).trans (h.timestamp hr)
  kind hr := (k.kind (h.kind hr ▸ hr)).trans (h.kind hr)
  urgency hr := (k.urgency (h.urgency hr ▸ hr)).trans (h.urgency hr)
  locations := h.locations.trans k.locations

theorem extends_absorb (r s : Release) : r.Extends (r.absorb s) where
  version := rfl
  description hr := if_pos hr
  timestamp hr := if_neg hr
  kind hr := if_neg hr
  urgency hr := if_neg hr
  locations := prefix_foldl_addNew _ _

end Release

/-- Each release of a list is at its place in another one and says there what it said. -/
def KeepsReleases (as bs : List Release) : Prop :=
  ∀ (i : Nat) (r : Release), as[i]? = some r → ∃ s, bs[i]? = some s ∧ r.Extends s

theorem keepsReleases_addTo (as : List Release) (r : Release) :
    KeepsReleases as (Release.addTo as r) := by
  induction as with
  | nil =>
    intro i a ha
    cases ha
  | cons e es ih =>
    intro i a ha
    unfold Release.addTo
    cases i with
    | zero =>
      obtain rfl := Option.some.inj ha
      split
      · exact ⟨_, rfl, e.extends_absorb r⟩
      · exact ⟨e, rfl, .refl e⟩
    | succ i =>
      split
      · exact ⟨a, ha, .refl a⟩
      · exact ih i a ha

theorem keepsReleases_foldl (as bs : List Release) :
    KeepsReleases as (bs.foldl Release.addTo as) := by
  induction bs generalizing as with
  | nil => exact fun i a ha => ⟨a, ha, .refl a⟩
  | cons b bs ih =>
    intro i a ha
    obtain ⟨s, hs, hextends⟩ := keepsReleases_addTo as b i a ha
    obtain ⟨t, ht, hmore⟩ := ih (Release.addTo as b) i s hs
    exact ⟨t, ht, hextends.trans hmore⟩

/-- Of each release that comes in there is one with its version; without a version it is listed
itself. -/
theorem exists_release_foldl (as : List Release) {bs : List Release} {r : Release} (h : r ∈ bs) :
    ∃ s ∈ bs.foldl Release.addTo as, s.version = r.version ∧ (r.version = none → s = r) := by
  cases hr : r.version with
  | none => exact ⟨r, (mem_foldl_addTo_of_unversioned hr).2 (.inr h), hr, fun _ => rfl⟩
  | some v =>
    have hv : v ∈ versions (bs.foldl Release.addTo as) :=
      mem_versions_foldl_addTo.2 (.inr (mem_versions.2 ⟨r, h, hr⟩))
    obtain ⟨s, hs, hversion⟩ := mem_versions.1 hv
    exact ⟨s, hs, hversion, fun hnone => nomatch hnone⟩

namespace Attribute

variable {α : Type} {merge : SubsumeFlags → α → α → α}

theorem get_of_not (f : Attribute merge) (h : flags.has f.flag = false) (c d : Component) :
    f.get (c.subsume flags d) = f.get c := by
  rw [f.subsume_eq, if_neg (by simp [h])]

/-- What merging keeps of a value, subsuming keeps of it whether the attribute is asked for or
not. -/
theorem keeps (f : Attribute merge) {p : α → α → Prop} (hrefl : ∀ a, p a a)
    (hmerge : ∀ a b, p a (merge flags a b)) (c d : Component) :
    p (f.get c) (f.get (c.subsume flags d)) := by
  rw [f.subsume_eq]
  split
  · exact hmerge _ _
  · exact hrefl _

/-- What merging takes from a donor, subsuming takes where the attribute is asked for. -/
theorem takes (f : Attribute merge) (h : flags.has f.flag = true) {p : α → α → Prop}
    (hmerge : ∀ a b, p b (merge flags a b)) (c d : Component) :
    p (f.get d) (f.get (c.subsume flags d)) := by
  rw [f.subsume_eq, if_pos h]
  exact hmerge _ _

end Attribute

namespace Component

/-- All that `c` says `e` says as well; values under keys are left aside. -/
structure Keeps (c e : Component) : Prop where
  scalar : ∀ f ∈ scalars, ∀ v, f.get c = some v → f.get e = some v
  kind : c.kind ≠ .unset → e.kind = c.kind
  hallmark : ∀ h, c.hallmarks.has h = true → e.hallmarks.has h = true
  text : ∀ f ∈ translations, ∀ locale v,
    (f.get c).get? locale = some v → (f.get e).get? locale = some v
  keywords : ∀ locale words, c.keywords.get? locale = some words →
    ∃ all, e.keywords.get? locale = some all ∧ words <+: all
  list : ∀ f ∈ lists, f.get c <+: f.get e
  collection : ∀ k ∈ collections, k.get c <+: k.get e
  release : KeepsReleases c.releases e.releases

theorem Keeps.scalar_eq {c e : Component} (h : Keeps c e) {f : Attribute mergeScalar}
    (hf : f ∈ scalars) : f.get c = none ∨ f.get e = f.get c := by
  cases hv : f.get c with
  | none => exact .inl rfl
  | some v => exact .inr (h.scalar f hf v hv)

/-- Nothing differs but the groups of fields that are asked for. -/
structure Untouched (flags : SubsumeFlags) (c e : Component) : Prop where
  id : e.id = c.id
  scope : e.scope = c.scope
  priority : e.priority = c.priority
  mergeKind : e.mergeKind = c.mergeKind
  faults : e.faults = c.faults
  addons : e.addons = c.addons
  scalar : ∀ f ∈ scalars, flags.has f.flag = false → f.get e = f.get c
  kind : flags.has .kind = false → e.kind = c.kind
  hallmark : flags.has .hallmarks = false → e.hallmarks = c.hallmarks
  text : ∀ f ∈ translations, flags.has f.flag = false → f.get e = f.get c
  annotation : ∀ f ∈ annotations, flags.has f.flag = false → f.get e = f.get c
  keywords : flags.has .keywords = false → e.keywords = c.keywords
  list : ∀ f ∈ lists, flags.has f.flag = false → f.get e = f.get c
  collection : ∀ k ∈ collections, flags.has k.field.flag = false → k.get e = k.get c
  release : flags.has .releases = false → e.releases = c.releases

/-- Of all that is asked for, what the donor `d` has `e` has as well, but for translations that are
to be left out as repetitions. -/
structure Takes (flags : SubsumeFlags) (d e : Component) : Prop where
  scalar : ∀ f ∈ scalars, flags.has f.flag = true →
    (f.get d).isSome = true → (f.get e).isSome = true
  kind : flags.has .kind = true → d.kind ≠ .unset → e.kind ≠ .unset
  hallmark : flags.has .hallmarks = true → ∀ h, d.hallmarks.has h = true → e.hallmarks.has h = true
  text : ∀ f ∈ translations, flags.has f.flag = true → ∀ locale v,
    (f.get d).get? locale = some v →
    (flags.has .dedupe = true → repeatsUntranslated (f.get d) locale v = false) →
    ((f.get e).get? locale).isSome = true
  annotation : ∀ f ∈ annotations, flags.has f.flag = true → ∀ k,
    ((f.get d).get? k).isSome = true → ((f.get e).get? k).isSome = true
  keywords : flags.has .keywords = true → ∀ locale words, d.keywords.get? locale = some words →
    ∃ all, e.keywords.get? locale = some all ∧ ∀ w ∈ words, w ∈ all
  list : ∀ f ∈ lists, flags.has f.flag = true → ∀ x ∈ f.get d, x ∈ f.get e
  collection : ∀ k ∈ collections, flags.has k.field.flag = true →
    ∀ x ∈ k.get d, ∃ y ∈ k.get e, k.same y x = true
  release : flags.has .releases = true → ∀ r ∈ d.releases,
    ∃ s ∈ e.releases, s.version = r.version ∧ (r.version = none → s = r)

theorem untouched_subsume (flags : SubsumeFlags) (c d : Component) :
    Untouched flags c (c.subsume flags d) where
  id := rfl
  scope := rfl
  priority := rfl
  mergeKind := rfl
  faults := rfl
  addons := rfl
  scalar f _ h := f.get_of_not h c d
  kind h := kindAttribute.get_of_not h c d
  hallmark h := hallmarkAttribute.get_of_not h c d
  text f _ h := f.get_of_not h c d
  annotation f _ h := f.get_of_not h c d
  keywords h := keywordAttribute.get_of_not h c d
  list f _ h := f.get_of_not h c d
  collection k _ h := k.field.get_of_not h c d
  release h := releaseAttribute.get_of_not h c d

theorem keeps_subsume (hkeeps : flags.keepsExisting = true) (hadd : flags.has .replace = false)
    (c d : Component) : Keeps c (c.subsume flags d) where
  scalar f _ := by
    apply f.keeps (p := fun a b => ∀ v, a = some v → b = some v) (fun _ _ h => h)
    intro a b v hv
    rw [mergeScalar_of_keepsExisting hkeeps, hv, Option.some_or]
  kind := by
    apply kindAttribute.keeps (p := fun a b => a ≠ .unset → b = a) (fun _ _ => rfl)
    intro a b ha
    simp [mergeComponentKind, hkeeps, ha]
  hallmark := by
    apply hallmarkAttribute.keeps (p := fun a b => ∀ h, a.has h = true → b.has h = true)
      (fun _ _ h => h)
    intro a b h ha
    simp [ha]
  text f _ := by
    apply f.keeps (p := fun a b => ∀ l v, a.get? l = some v → b.get? l = some v) (fun _ _ _ h => h)
    exact fun a b l v hv => get?_mergeText_of_some hadd hkeeps hv
  keywords := by
    apply keywordAttribute.keeps (p := fun a b => ∀ l words, a.get? l = some words →
      ∃ all, b.get? l = some all ∧ words <+: all) (fun _ _ words h => ⟨words, h, List.prefix_refl _⟩)
    intro a b l words hwords
    rw [get?_mergeKeywords hadd, hwords]
    cases b.get? l with
    | none => exact ⟨words, rfl, List.prefix_refl _⟩
    | some more =>
      refine ⟨_, rfl, ?_⟩
      rw [TextMap.getD, hwords]
      exact prefix_foldl_addNew words more
  list f _ := by
    apply f.keeps (p := fun a b => a <+: b) List.prefix_refl
    exact fun a b => prefix_mergeEntries hadd a b
  collection k _ := by
    apply k.field.keeps (p := fun a b => a <+: b) List.prefix_refl
    exact fun a b => prefix_mergeEntries hadd a b
  release := by
    apply releaseAttribute.keeps (p := KeepsReleases) (fun _ _ r h => ⟨r, h, .refl r⟩)
    intro a b
    rw [mergeEntries_eq_foldl hadd]
    exact keepsReleases_foldl a b

theorem takes_subsume (hadd : flags.has .replace = false) (c d : Component) :
    Takes flags d (c.subsume flags d) where
  scalar f _ h := by
    apply f.takes h (p := fun b e => b.isSome = true → e.isSome = true)
    intro a b hb
    rw [isSome_mergeScalar, hb, Bool.or_true]
  kind h := by
    apply kindAttribute.takes h (p := fun b e => b ≠ .unset → e ≠ .unset)
    intro a b hb hmerged
    exact hb ((mergeComponentKind_eq_unset_iff flags a b).1 hmerged).2
  hallmark h := by
    apply hallmarkAttribute.takes h (p := fun b e => ∀ h, b.has h = true → e.has h = true)
    intro a b h hb
    simp [hb]
  text f _ h := by
    apply f.takes h (p := fun b e => ∀ l v, b.get? l = some v →
      (flags.has .dedupe = true → repeatsUntranslated b l v = false) → (e.get? l).isSome = true)
    intro a b l v hv hgenuine
    rw [isSome_get?_mergeText hadd, hv, Option.filter_some]
    cases hdedupe : flags.has .dedupe with
    | false => simp
    | true => simp [hgenuine hdedupe]
  annotation f _ h := by
    apply f.takes h (p := fun b e => ∀ k, (b.get? k).isSome = true → (e.get? k).isSome = true)
    intro a b k hb
    rw [isSome_get?_mergeText_of_not_dedupe (by simp [hadd]) (by simp), hb, Bool.or_true]
  keywords h := by
    apply keywordAttribute.takes h (p := fun b e => ∀ l words, b.get? l = some words →
      ∃ all, e.get? l = some all ∧ ∀ w ∈ words, w ∈ all)
    intro a b l words hwords
    rw [get?_mergeKeywords hadd, hwords]
    exact ⟨_, rfl, fun w hw => mem_foldl_addNew.2 (.inr hw)⟩
  list f _ h := by
    apply f.takes h (p := fun b e => ∀ x ∈ b, x ∈ e)
    intro a b x hx
    unfold mergeList
    rw [mergeEntries_eq_foldl hadd]
    exact mem_foldl_addNew.2 (.inr hx)
  collection k _ h := by
    apply k.field.takes h (p := fun b e => ∀ x ∈ b, ∃ y ∈ e, k.same y x = true)
    exact exists_same_mergeEntries k.same_refl hadd
  release h := by
    apply releaseAttribute.takes h (p := fun b e => ∀ r ∈ b,
      ∃ s ∈ e, s.version = r.version ∧ (r.version = none → s = r))
    intro a b r hr
    rw [mergeEntries_eq_foldl hadd]
    exact exists_release_foldl a hr

/-- Where nothing forbids to overwrite, values under keys stay if and only if the donor has no
other ones. -/
theorem annotation_stays_iff (hadd : flags.has .replace = false)
    (f : Attribute fun flags => mergeText (flags.erase .dedupe)) (c d : Component) :
    (∀ k v, (f.get c).get? k = some v → (f.get (c.subsume flags d)).get? k = some v) ↔
      flags.has f.flag = false ∨ flags.has .noOverwrite = true ∨
        (f.get c).Compatible (f.get d) := by
  have hadd' : (flags.erase .dedupe).has .replace = false := by simp [hadd]
  have hdedupe' : (flags.erase .dedupe).has .dedupe = false := by simp
  cases hflag : flags.has f.flag with
  | false =>
    rw [f.get_of_not hflag]
    exact iff_of_true (fun _ _ h => h) (.inl rfl)
  | true =>
    rw [f.subsume_eq, if_pos hflag]
    cases hkeep : flags.has .noOverwrite with
    | true =>
      have hkeep' : (flags.erase .dedupe).has .noOverwrite = true := by simp [hkeep]
      refine iff_of_true ?_ (.inr (.inl rfl))
      intro k v hv
      rw [get?_mergeText_of_keep hadd' hdedupe' hkeep', hv, Option.some_or]
    | false =>
      have hover : (flags.erase .dedupe).has .noOverwrite = false := by simp [hkeep]
      simp only [get?_mergeText_of_overwrite hadd' hdedupe' hover, Bool.true_eq_false, false_or,
        Bool.false_eq_true]
      constructor
      · intro hstays k v w hv hw
        have hmerged := hstays k v hv
        rw [hw, Option.some_or] at hmerged
        exact (Option.some.inj hmerged).symm
      · intro hcompatible k v hv
        cases hw : (f.get d).get? k with
        | none => rw [hv, Option.none_or]
        | some w => rw [Option.some_or, hcompatible k v w hv hw]

/-- Where existing values are to stay, subsuming a donor loses nothing that the description said,
leaves alone what is not asked for and takes all that is. Values under keys alone are not safe
without the policy that forbids to overwrite: then they stay just where the donor has no others. -/
theorem subsume_enriches (hkeeps : flags.keepsExisting = true) (hadd : flags.has .replace = false)
    (c d : Component) :
    Keeps c (c.subsume flags d) ∧ Untouched flags c (c.subsume flags d) ∧
      Takes flags d (c.subsume flags d) ∧
      ∀ f ∈ annotations,
        (∀ k v, (f.get c).get? k = some v → (f.get (c.subsume flags d)).get? k = some v) ↔
          flags.has f.flag = false ∨ flags.has .noOverwrite = true ∨
            (f.get c).Compatible (f.get d) :=
  ⟨keeps_subsume hkeeps hadd c d, untouched_subsume flags c d, takes_subsume hadd c d,
    fun f _ => annotation_stays_iff hadd f c d⟩

/-- A component with a homepage. -/
def atHome (homepage : String) : Component := { urls := TextMap.empty.insert "homepage" homepage }

/-- Takes over the values under keys and leaves repetitions out. -/
def urlsDeduped : SubsumeFlags := .ofList [.url, .dedupe]

/-- Taking over a homepage keeps all that is not under a key. -/
theorem keeps_of_urlsDeduped :
    urlsDeduped.keepsExisting = true ∧ urlsDeduped.has .replace = false ∧
      Keeps (atHome "https://example.org")
        ((atHome "https://example.org").subsume urlsDeduped (atHome "https://example.com")) :=
  ⟨by decide, by decide, (subsume_enriches (by decide) (by decide) _ _).1⟩

/-- A homepage gives way to that of the donor although leaving out repetitions is to imply that
nothing is overwritten. -/
theorem homepage_overwritten :
    urlsDeduped.keepsExisting = true ∧ urlsDeduped.has .replace = false ∧
      (atHome "https://example.org").urls.get? "homepage" = some "https://example.org" ∧
      ((atHome "https://example.org").subsume urlsDeduped (atHome "https://example.com")).urls.get?
        "homepage" = some "https://example.com" := by
  decide +kernel

end Component

end SoftwareCatalog
