import SoftwareCatalog.Proofs.Component.Texts
import SoftwareCatalog.Proofs.Component.Tidy

namespace SoftwareCatalog

variable {flags : SubsumeFlags}

theorem isSome_mergeScalar (flags : SubsumeFlags) (target donor : Option String) :
    (mergeScalar flags target donor).isSome = (target.isSome || donor.isSome) := by
  unfold mergeScalar
  cases donor with
  | none => simp
  | some v => cases target <;> cases flags.keepsExisting <;> rfl

theorem mergeScalar_eq_or (flags : SubsumeFlags) (target donor : Option String) :
    mergeScalar flags target donor = target ∨ mergeScalar flags target donor = donor := by
  unfold mergeScalar
  cases donor with
  | none => exact .inl rfl
  | some v =>
    simp only
    split
    · exact .inl rfl
    · exact .inr rfl

theorem mergeComponentKind_eq_or (flags : SubsumeFlags) (target donor : ComponentKind) :
    mergeComponentKind flags target donor = target ∨
      mergeComponentKind flags target donor = donor := by
  unfold mergeComponentKind
  split
  · exact .inl rfl
  · exact .inr rfl

theorem mergeComponentKind_eq_unset_iff (flags : SubsumeFlags) (target donor : ComponentKind) :
    mergeComponentKind flags target donor = .unset ↔ target = .unset ∧ donor = .unset := by
  unfold mergeComponentKind
  by_cases hd : donor = .unset <;> by_cases ht : target = .unset <;>
    cases flags.keepsExisting <;> simp [hd, ht]

namespace Component

/-- Whatever `a` or `b` has is in `c`, and whatever is in `c` comes from `a` or `b`. -/
structure Joined (a b c : Component) : Prop where
  scalar_set : ∀ f ∈ scalars, (f.get c).isSome = ((f.get a).isSome || (f.get b).isSome)
  scalar_from : ∀ f ∈ scalars, f.get c = f.get a ∨ f.get c = f.get b
  kind_unset : c.kind = .unset ↔ a.kind = .unset ∧ b.kind = .unset
  kind_from : c.kind = a.kind ∨ c.kind = b.kind
  hallmark : ∀ h, c.hallmarks.has h = (a.hallmarks.has h || b.hallmarks.has h)
  text_found : ∀ f ∈ translations, ∀ locale, ((f.get c).localized locale).isSome =
    (((f.get a).localized locale).isSome || ((f.get b).localized locale).isSome)
  text_from : ∀ f ∈ translations, ∀ l text,
    (f.get c).get? l = some text → (f.get a).get? l = some text ∨ (f.get b).get? l = some text
  value_found : ∀ f ∈ annotations, ∀ k,
    ((f.get c).get? k).isSome = (((f.get a).get? k).isSome || ((f.get b).get? k).isSome)
  value_from : ∀ f ∈ annotations, ∀ k v,
    (f.get c).get? k = some v → (f.get a).get? k = some v ∨ (f.get b).get? k = some v
  keyword : ∀ locale word,
    word ∈ c.keywordsIn locale ↔ word ∈ a.keywordsIn locale ∨ word ∈ b.keywordsIn locale
  word : ∀ f ∈ lists, ∀ w, w ∈ f.get c ↔ w ∈ f.get a ∨ w ∈ f.get b
  collection : ∀ k ∈ collections, Gathers k.same (k.get a) (k.get b) (k.get c)
  version : ∀ v,
    v ∈ versions c.releases ↔ v ∈ versions a.releases ∨ v ∈ versions b.releases
  version_once : (versions c.releases).Nodup
  unversioned : ∀ r : Release, r.version = none →
    (r ∈ c.releases ↔ r ∈ a.releases ∨ r ∈ b.releases)
  release_from : ∀ r ∈ c.releases, Pieced (fun s => s ∈ a.releases ∨ s ∈ b.releases) r

namespace Joined

variable {a b c d : Component}

theorem symm (h : Joined a b c) : Joined b a c where
  scalar_set f hf := by rw [h.scalar_set f hf, Bool.or_comm]
  scalar_from f hf := (h.scalar_from f hf).symm
  kind_unset := h.kind_unset.trans and_comm
  kind_from := h.kind_from.symm
  hallmark i := by rw [h.hallmark i, Bool.or_comm]
  text_found f hf l := by rw [h.text_found f hf l, Bool.or_comm]
  text_from f hf l text heq := (h.text_from f hf l text heq).symm
  value_found f hf k := by rw [h.value_found f hf k, Bool.or_comm]
  value_from f hf k v heq := (h.value_from f hf k v heq).symm
  keyword l w := (h.keyword l w).trans or_comm
  word f hf w := (h.word f hf w).trans or_comm
  collection k hk := (h.collection k hk).symm
  version v := (h.version v).trans or_comm
  version_once := h.version_once
  unversioned r hr := (h.unversioned r hr).trans or_comm
  release_from r hr := by
    refine Pieced.trans ?_ (h.release_from r hr)
    intro s hs
    exact .of_source hs.symm

theorem attach (h : Joined a b c) (addons : List String) (tokens : Option Search.TokenCache) :
    Joined a b { c with addons, tokens } where
  scalar_set f hf := by rw [f.get_attach c addons tokens, h.scalar_set f hf]
  scalar_from f hf := by rw [f.get_attach c addons tokens]; exact h.scalar_from f hf
  kind_unset := h.kind_unset
  kind_from := h.kind_from
  hallmark := h.hallmark
  text_found f hf := by rw [f.get_attach c addons tokens]; exact h.text_found f hf
  text_from f hf := by rw [f.get_attach c addons tokens]; exact h.text_from f hf
  value_found f hf := by rw [f.get_attach c addons tokens]; exact h.value_found f hf
  value_from f hf := by rw [f.get_attach c addons tokens]; exact h.value_from f hf
  keyword := h.keyword
  word f hf := by rw [f.get_attach c addons tokens]; exact h.word f hf
  collection k hk := by rw [k.get_attach c addons tokens]; exact h.collection k hk
  version := h.version
  version_once := h.version_once
  unversioned := h.unversioned
  release_from := h.release_from

/-- Joining `b` again to what it is joined in adds nothing. -/
theorem absorb (h : Joined a b c) (k : Joined b c d) : Joined a b d where
  scalar_set f hf := by
    rw [k.scalar_set f hf, h.scalar_set f hf]
    cases (f.get a).isSome <;> simp
  scalar_from f hf := by
    rcases k.scalar_from f hf with heq | heq
    · exact .inr heq
    · exact (h.scalar_from f hf).imp heq.trans heq.trans
  kind_unset := by
    rw [k.kind_unset, h.kind_unset]
    tauto
  kind_from := by
    rcases k.kind_from with heq | heq
    · exact .inr heq
    · exact h.kind_from.imp heq.trans heq.trans
  hallmark i := by
    rw [k.hallmark, h.hallmark]
    cases a.hallmarks.has i <;> simp
  text_found f hf l := by
    rw [k.text_found f hf l, h.text_found f hf l]
    cases ((f.get a).localized l).isSome <;> simp
  text_from f hf l text heq := by
    rcases k.text_from f hf l text heq with heq | heq
    · exact .inr heq
    · exact h.text_from f hf l text heq
  value_found f hf l := by
    rw [k.value_found f hf l, h.value_found f hf l]
    cases ((f.get a).get? l).isSome <;> simp
  value_from f hf l v heq := by
    rcases k.value_from f hf l v heq with heq | heq
    · exact .inr heq
    · exact h.value_from f hf l v heq
  keyword l w := by
    rw [k.keyword, h.keyword]
    tauto
  word f hf w := by
    rw [k.word f hf, h.word f hf]
    tauto
  collection l hl := (h.collection l hl).trans l.same_trans (k.collection l hl)
  version v := by
    rw [k.version, h.version]
    tauto
  version_once := k.version_once
  unversioned r hr := by
    rw [k.unversioned r hr, h.unversioned r hr]
    tauto
  release_from r hr := by
    refine Pieced.trans ?_ (k.release_from r hr)
    intro s hs
    rcases hs with hs | hs
    · exact .of_source (.inr hs)
    · exact h.release_from s hs

end Joined

/-- Taking over all that a donor has joins the two descriptions, whichever values win. -/
theorem joined_subsume (hflags : flags.Full) {c : Component} (hc : c.Tidy) (d : Component) :
    Joined c d (c.subsume flags d) := by
  have hkeys : (flags.erase .dedupe).has .replace = false := by simp [hflags.adds]
  have hreleases := releases_subsume_of_full hflags c d
  have hkind : (c.subsume flags d).kind = mergeComponentKind flags c.kind d.kind :=
    kindAttribute.get_subsume hflags c d
  have hkeywords : (c.subsume flags d).keywords = mergeKeywords flags c.keywords d.keywords :=
    keywordAttribute.get_subsume hflags c d
  have hhallmarks : (c.subsume flags d).hallmarks = c.hallmarks.union d.hallmarks :=
    hallmarkAttribute.get_subsume hflags c d
  refine ⟨?_, ?_, ?_, ?_, ?_, ?_, ?_, ?_, ?_, ?_, ?_, ?_, ?_, ?_, ?_, ?_⟩
  · intro f _
    rw [f.get_subsume hflags]
    exact isSome_mergeScalar flags _ _
  · intro f _
    rw [f.get_subsume hflags]
    exact mergeScalar_eq_or flags _ _
  · rw [hkind]
    exact mergeComponentKind_eq_unset_iff flags _ _
  · rw [hkind]
    exact mergeComponentKind_eq_or flags _ _
  · intro h
    rw [hhallmarks, FlagSet.has_union]
  · intro f _ locale
    rw [f.get_subsume hflags]
    exact isSome_localized_mergeText hflags.adds _ _ locale
  · intro f _ l text heq
    rw [f.get_subsume hflags] at heq
    exact get?_mergeText_sourced hflags.adds heq
  · intro f _ k
    rw [f.get_subsume hflags]
    exact isSome_get?_mergeText_of_not_dedupe hkeys (by simp) _ _ k
  · intro f _ k v heq
    rw [f.get_subsume hflags] at heq
    exact get?_mergeText_sourced hkeys heq
  · intro locale word
    unfold keywordsIn
    rw [hkeywords]
    exact mem_getD_mergeKeywords hflags.adds _ _ _ word
  · intro f _ w
    rw [f.get_subsume hflags]
    unfold mergeList
    rw [mergeEntries_eq_foldl hflags.adds]
    exact mem_foldl_addNew
  · intro k hk
    rw [k.get_subsume hflags]
    exact gathers_foldl k.same_refl (hc.distinct k hk) _
  · intro v
    rw [hreleases]
    exact mem_versions_foldl_addTo
  · exact (hc.subsume flags d).versions
  · intro r hr
    rw [hreleases]
    exact mem_foldl_addTo_of_unversioned hr
  · intro r hr
    rw [hreleases] at hr
    exact pieced_foldl_addTo hr

/-- Both descriptions come to join the two after a merge in both directions. -/
theorem joined_mergeWith {c d : Component} (hc : c.Tidy) (hd : d.Tidy) :
    Joined c d (c.mergeWith twoWay d).1 ∧ Joined c d (c.mergeWith twoWay d).2 := by
  have hforth : Joined c d (c.subsume twoWay d) := joined_subsume full_twoWay hc d
  have hback : Joined d (c.subsume twoWay d) (d.subsume fillBack (c.subsume twoWay d)) :=
    joined_subsume full_fillBack hd _
  rw [mergeWith_twoWay]
  exact ⟨hforth, hforth.absorb hback⟩

end Component

end SoftwareCatalog
