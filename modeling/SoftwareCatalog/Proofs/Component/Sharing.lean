import SoftwareCatalog.Proofs.Component.Built
import SoftwareCatalog.Proofs.Component.Enrichment

namespace SoftwareCatalog

variable {flags back : SubsumeFlags}

/-- What holds of a value and a donor's and stays true as the two merge holds after subsuming. -/
theorem Attribute.subsumed {α : Type} {merge : SubsumeFlags → α → α → α} (f : Attribute merge)
    {p : α → α → Prop} {c d : Component} (h : p (f.get c) (f.get d))
    (hmerge : ∀ a b, p a b → p (merge back a b) b) : p (f.get (c.subsume back d)) (f.get d) := by
  rw [f.subsume_eq]
  split
  · exact hmerge _ _ h
  · exact h

namespace Component

/-- It makes no difference which policies ask for every group of fields. -/
theorem Takes.of_full {d e : Component} (hflags : flags.Full)
    (hdedupe : flags.has .dedupe = true → back.has .dedupe = true) (h : Takes flags d e) :
    Takes back d e where
  scalar f hf _ := h.scalar f hf (hflags.has _ f.isField)
  kind _ := h.kind (hflags.has _ rfl)
  hallmark _ := h.hallmark (hflags.has _ rfl)
  text f hf _ l v hv hgenuine :=
    h.text f hf (hflags.has _ f.isField) l v hv fun hd => hgenuine (hdedupe hd)
  annotation f hf _ := h.annotation f hf (hflags.has _ f.isField)
  keywords _ := h.keywords (hflags.has _ rfl)
  list f hf _ := h.list f hf (hflags.has _ f.isField)
  collection k hk _ := h.collection k hk (hflags.has _ k.field.isField)
  release _ := h.release (hflags.has _ rfl)

/-- A description that has what a donor has, has what the donor takes from it as well. -/
theorem Takes.subsume {d e : Component} (hkeeps : back.keepsExisting = true)
    (hadd : back.has .replace = false) (h : Takes flags d e) :
    Takes flags (d.subsume back e) e where
  scalar f hf hflag := by
    apply f.subsumed (p := fun a b => a.isSome = true → b.isSome = true) (h.scalar f hf hflag)
    intro a b hcovered hset
    rw [isSome_mergeScalar, Bool.or_eq_true] at hset
    exact hset.elim hcovered fun hb => hb
  kind hflag := by
    apply kindAttribute.subsumed (p := fun a b => a ≠ .unset → b ≠ .unset) (h.kind hflag)
    intro a b hcovered hset hb
    refine hset ((mergeComponentKind_eq_unset_iff back a b).2 ⟨?_, hb⟩)
    by_contra ha
    exact hcovered ha hb
  hallmark hflag := by
    apply hallmarkAttribute.subsumed (p := fun a b => ∀ h, a.has h = true → b.has h = true)
      (h.hallmark hflag)
    intro a b hcovered i hi
    rw [FlagSet.has_union, Bool.or_eq_true] at hi
    exact hi.elim (hcovered i) fun hb => hb
  text f hf hflag := by
    apply f.subsumed (p := fun a b => ∀ l v, a.get? l = some v →
      (flags.has .dedupe = true → repeatsUntranslated a l v = false) → (b.get? l).isSome = true)
      (h.text f hf hflag)
    intro a b hcovered l v hv hgenuine
    rcases get?_mergeText_sourced hadd hv with ha | hb
    · -- what repeats the untranslated text still does, for that text stays
      refine hcovered l v ha fun hdedupe => repeatsUntranslated_mono ?_ (hgenuine hdedupe)
      exact fun _ => get?_mergeText_of_some hadd hkeeps
    · rw [hb]
      rfl
  annotation f hf hflag := by
    apply f.subsumed (p := fun a b => ∀ k, (a.get? k).isSome = true → (b.get? k).isSome = true)
      (h.annotation f hf hflag)
    intro a b hcovered k hset
    rw [isSome_get?_mergeText_of_not_dedupe (by simp [hadd]) (by simp), Bool.or_eq_true] at hset
    exact hset.elim (hcovered k) fun hb => hb
  keywords hflag := by
    apply keywordAttribute.subsumed (p := fun a b => ∀ l words, a.get? l = some words →
      ∃ all, b.get? l = some all ∧ ∀ w ∈ words, w ∈ all) (h.keywords hflag)
    intro a b hcovered l words hwords
    rw [get?_mergeKeywords hadd] at hwords
    cases hb : b.get? l with
    | none =>
      rw [hb] at hwords
      obtain ⟨all, hall, -⟩ := hcovered l words hwords
      exact absurd (hb.symm.trans hall) (Option.some_ne_none all).symm
    | some others =>
      rw [hb] at hwords
      obtain rfl := Option.some.inj hwords
      refine ⟨others, rfl, fun w hw => ?_⟩
      rcases mem_foldl_addNew.1 hw with ha | hothers
      · cases hown : a.get? l with
        | none => simp [TextMap.getD, hown] at ha
        | some own =>
          obtain ⟨all, hall, hin⟩ := hcovered l own hown
          obtain rfl := Option.some.inj (hb.symm.trans hall)
          exact hin w (by simpa [TextMap.getD, hown] using ha)
      · exact hothers
  list f hf hflag := by
    apply f.subsumed (p := fun a b => ∀ x ∈ a, x ∈ b) (h.list f hf hflag)
    intro a b hcovered x hx
    unfold mergeList at hx
    rw [mergeEntries_eq_foldl hadd] at hx
    exact (mem_foldl_addNew.1 hx).elim (hcovered x) fun hb => hb
  collection k hk hflag := by
    apply k.field.subsumed (p := fun a b => ∀ x ∈ a, ∃ y ∈ b, k.same y x = true)
      (h.collection k hk hflag)
    intro a b hcovered x hx
    rw [mergeEntries_eq_foldl hadd] at hx
    exact (mem_or_mem_of_mem_foldl hx).elim (hcovered x) fun hb => ⟨x, hb, k.same_refl x⟩
  release hflag := by
    apply releaseAttribute.subsumed (p := fun a b => ∀ r ∈ a,
      ∃ s ∈ b, s.version = r.version ∧ (r.version = none → s = r)) (h.release hflag)
    intro a b hcovered r hr
    rw [mergeEntries_eq_foldl hadd] at hr
    cases hversion : r.version with
    | none =>
      rcases (mem_foldl_addTo_of_unversioned hversion).1 hr with ha | hb
      · obtain ⟨s, hs, hsame, heq⟩ := hcovered r ha
        exact ⟨s, hs, hsame.trans hversion, fun _ => heq hversion⟩
      · exact ⟨r, hb, hversion, fun _ => rfl⟩
    | some v =>
      have hv := mem_versions_foldl_addTo.1 (mem_versions.2 ⟨r, hr, hversion⟩)
      suffices hfound : v ∈ versions b by
        obtain ⟨s, hs, hsame⟩ := mem_versions.1 hfound
        exact ⟨s, hs, hsame, fun hnone => absurd hnone (Option.some_ne_none v)⟩
      rcases hv with ha | hb
      · obtain ⟨q, hq, hqv⟩ := mem_versions.1 ha
        obtain ⟨s, hs, hsame, -⟩ := hcovered q hq
        exact mem_versions.2 ⟨s, hs, hsame.trans hqv⟩
      · exact hb

/-- After a merge in both directions each description has what the other one has. -/
theorem takes_mergeWith (c d : Component) :
    Takes twoWay (c.mergeWith twoWay d).1 (c.mergeWith twoWay d).2 ∧
      Takes twoWay (c.mergeWith twoWay d).2 (c.mergeWith twoWay d).1 := by
  have hforth : Takes twoWay d (c.subsume twoWay d) := takes_subsume full_twoWay.adds c d
  have hback : Takes fillBack (c.subsume twoWay d) (d.subsume fillBack (c.subsume twoWay d)) :=
    takes_subsume full_fillBack.adds d _
  rw [mergeWith_twoWay]
  exact ⟨hback.of_full full_fillBack fun _ => rfl, hforth.subsume (by decide) full_fillBack.adds⟩

/-- Values under keys come out alike, with those of the second description first. -/
theorem annotations_mergeWith (c d : Component)
    (f : Attribute fun flags => mergeText (flags.erase .dedupe)) :
    f.get (c.mergeWith twoWay d).1 = f.get (c.mergeWith twoWay d).2 ∧
      ∀ k, (f.get (c.mergeWith twoWay d).1).get? k =
        ((f.get d).get? k).or ((f.get c).get? k) := by
  have hforth (k : String) : (f.get (c.subsume twoWay d)).get? k =
      ((f.get d).get? k).or ((f.get c).get? k) := by
    rw [f.get_subsume full_twoWay]
    exact get?_mergeText_of_overwrite (by decide) (by decide) (by decide) _ _ k
  have hback (k : String) : (f.get (d.subsume fillBack (c.subsume twoWay d))).get? k =
      ((f.get d).get? k).or ((f.get (c.subsume twoWay d)).get? k) := by
    rw [f.get_subsume full_fillBack]
    exact get?_mergeText_of_keep (by decide) (by decide) (by decide) _ _ k
  rw [mergeWith_twoWay]
  refine ⟨TextMap.ext_get? fun k => ?_, hforth⟩
  rw [hback, hforth]
  cases (f.get d).get? k <;> rfl

/-- A merge in both directions leaves two descriptions of which neither lost what it had, each has
what the other one has, and none has anything that neither had before. Values under keys are the
exception: they come out alike and those of the second description stay, those of the first one
just where the second one has no others. -/
theorem mergeWith_shares {a b c d : Component} (ha : a.Built) (hb : b.Built)
    (hmerge : a.mergeWith twoWay b = (c, d)) :
    (Keeps a c ∧ c.core = a.core) ∧ (Keeps b d ∧ d.core = b.core) ∧
      (Takes twoWay c d ∧ Takes twoWay d c) ∧ (Joined a b c ∧ Joined a b d) ∧
      ∀ f ∈ annotations, f.get c = f.get d ∧
        (∀ k v, (f.get b).get? k = some v → (f.get d).get? k = some v) ∧
        ((∀ k v, (f.get a).get? k = some v → (f.get c).get? k = some v) ↔
          (f.get a).Compatible (f.get b)) := by
  have hmutual := takes_mergeWith a b
  have hjoined := joined_mergeWith ha.tidy hb.tidy
  have hvalues := annotations_mergeWith a b
  rw [hmerge] at hmutual hjoined hvalues
  rw [mergeWith_twoWay, Prod.mk.injEq] at hmerge
  obtain ⟨rfl, rfl⟩ := hmerge
  refine ⟨⟨keeps_subsume (by decide) full_twoWay.adds a b, rfl⟩,
    ⟨keeps_subsume (by decide) full_fillBack.adds b _, rfl⟩, hmutual, hjoined, fun f _ => ?_⟩
  obtain ⟨halike, hvalue⟩ := hvalues f
  refine ⟨halike, fun k v hv => ?_, ?_⟩
  · rw [← halike, hvalue, hv, Option.some_or]
  · have hover : twoWay.has .noOverwrite = false := rfl
    rw [annotation_stays_iff full_twoWay.adds f a b]
    simp [full_twoWay.has f.flag f.isField, hover]

theorem built_atHome (homepage : String) : (atHome homepage).Built :=
  .sets .blank (.url "homepage" homepage)

/-- After a merge in both directions the two have one homepage. -/
theorem homepage_shared :
    (atHome "https://example.org").mergeWith twoWay (atHome "https://example.com") =
      ((atHome "https://example.org").subsume twoWay (atHome "https://example.com"),
        atHome "https://example.com") ∧
    ((atHome "https://example.org").subsume twoWay (atHome "https://example.com")).urls =
      (atHome "https://example.com").urls := by
  have hmerge : (atHome "https://example.org").mergeWith twoWay (atHome "https://example.com") =
      ((atHome "https://example.org").subsume twoWay (atHome "https://example.com"),
        atHome "https://example.com") := by
    decide +kernel
  have hvalues := (mergeWith_shares (built_atHome _) (built_atHome _) hmerge).2.2.2.2
  exact ⟨hmerge, (hvalues _ List.mem_cons_self).1⟩

/-- The first description has lost the homepage that it had. -/
theorem homepage_lost :
    (atHome "https://example.org").Built ∧ (atHome "https://example.com").Built ∧
      (atHome "https://example.org").urls.get? "homepage" = some "https://example.org" ∧
      ((atHome "https://example.org").mergeWith twoWay (atHome "https://example.com")).1.urls.get?
        "homepage" = some "https://example.com" :=
  ⟨built_atHome _, built_atHome _, by decide +kernel, by decide +kernel⟩

end Component

end SoftwareCatalog
