import SoftwareCatalog.Proofs.Component.Absorption
import SoftwareCatalog.Proofs.Component.Ruling

namespace SoftwareCatalog

/-- The releases without a version in their order. -/
def unversioned (rs : List Release) : List Release := rs.filter (·.version.isNone)

namespace Release

variable {as bs : List Release} {a r : Release}

/-- A value that fills no gap of another one fills none that a third one has filled. -/
theorem fill_stays {α : Type} [DecidableEq α] {gap x y : α}
    (h : (if x = gap then y else x) = x) (z : α) :
    (if (if x = gap then z else x) = gap then y else if x = gap then z else x) =
      if x = gap then z else x := by
  by_cases hx : x = gap
  · rw [if_pos hx] at h
    by_cases hz : z = gap
    · simp [hx, hz, h]
    · simp [hx, hz]
  · simp [hx]

theorem fill_again {α : Type} [DecidableEq α] (gap x y : α) :
    (if (if x = gap then y else x) = gap then y else if x = gap then y else x) =
      if x = gap then y else x := by
  by_cases hx : x = gap
  · simp [hx]
  · simp [hx]

theorem description_absorb (a r : Release) : (a.absorb r).description =
    if a.description = .empty then r.description else a.description := by
  have hempty : a.hasDescription = false ↔ a.description = .empty := by
    simp only [hasDescription, Bool.not_eq_false', TextMap.isEmpty, List.isEmpty_iff]
    exact ⟨fun h => TextMap.ext h, fun h => congrArg TextMap.entries h⟩
  by_cases ha : a.description = .empty
  · simp [absorb, ha, hempty.2 ha]
  · have hsome : a.hasDescription = true := by
      rw [← Bool.not_eq_false, hempty]
      exact ha
    simp [absorb, ha, hsome]

/-- A release that an entry has absorbed gives it nothing later either. -/
theorem absorb_stays (h : a.absorb r = a) (q : Release) :
    (a.absorb q).absorb r = a.absorb q := by
  have hlocations : ∀ l ∈ r.locations, l ∈ q.locations.foldl addNew a.locations := by
    intro l hl
    have hk : r.locations.foldl addNew a.locations = a.locations := congrArg Release.locations h
    have hin : l ∈ r.locations.foldl addNew a.locations := mem_foldl_addNew.2 (.inr hl)
    exact mem_foldl_addNew.2 (.inl (hk ▸ hin))
  ext1
  · rfl
  · exact fill_stays (congrArg Release.kind h) q.kind
  · exact fill_stays (congrArg Release.timestamp h) q.timestamp
  · exact fill_stays (congrArg Release.urgency h) q.urgency
  · have hk := congrArg Release.description h
    rw [description_absorb] at hk
    simp only [description_absorb]
    exact fill_stays hk q.description
  · exact foldl_addNew_of_subset hlocations

theorem absorb_again (a r : Release) : (a.absorb r).absorb r = a.absorb r := by
  have hlocations : ∀ l ∈ r.locations, l ∈ r.locations.foldl addNew a.locations :=
    fun l hl => mem_foldl_addNew.2 (.inr hl)
  ext1
  · rfl
  · exact fill_again .unset a.kind r.kind
  · exact fill_again 0 a.timestamp r.timestamp
  · exact fill_again .unset a.urgency r.urgency
  · simp only [description_absorb]
    exact fill_again .empty a.description r.description
  · exact foldl_addNew_of_subset hlocations

/-- A list has taken in all that a release says. -/
def Settled (as : List Release) (r : Release) : Prop := addTo as r = as

theorem settled_cons (h : a.same r = false) : Settled (a :: as) r ↔ Settled as r := by
  simp [Settled, addTo, h]

theorem settled_cons_of_same (h : a.same r = true) :
    Settled (a :: as) r ↔ a.absorb r = a := by
  simp [Settled, addTo, h]

theorem settled_addTo (h : r.version.isSome = true) (as : List Release) :
    Settled (addTo as r) r := by
  have hself : r.same r = true := by simp [same, h]
  induction as with
  | nil => exact (settled_cons_of_same hself).2 r.absorb_self
  | cons a as ih =>
    unfold addTo
    cases hsame : a.same r with
    | true =>
      have hstill : (a.absorb r).same r = true := hsame
      rw [if_pos rfl, settled_cons_of_same hstill]
      exact absorb_again a r
    | false =>
      rw [if_neg (by simp), settled_cons hsame]
      exact ih

theorem Settled.addTo (h : Settled as r) (q : Release) : Settled (addTo as q) r := by
  induction as with
  | nil => cases h
  | cons a as ih =>
    unfold Release.addTo
    cases hsame : a.same r with
    | true =>
      have hdone := (settled_cons_of_same hsame).1 h
      have hstill : (a.absorb q).same r = true := hsame
      split
      · exact (settled_cons_of_same hstill).2 (absorb_stays hdone q)
      · exact (settled_cons_of_same hsame).2 hdone
    | false =>
      have hrest := (settled_cons hsame).1 h
      have hstill : (a.absorb q).same r = false := hsame
      split
      · exact (settled_cons hstill).2 hrest
      · exact (settled_cons hsame).2 (ih hrest)

theorem Settled.foldl (h : Settled as r) (bs : List Release) :
    Settled (bs.foldl Release.addTo as) r := by
  induction bs generalizing as with
  | nil => exact h
  | cons b bs ih => exact ih (h.addTo b)

theorem settled_foldl (h : r.version.isSome = true) (hr : r ∈ bs) (as : List Release) :
    Settled (bs.foldl addTo as) r := by
  induction bs generalizing as with
  | nil => cases hr
  | cons b bs ih =>
    rcases List.mem_cons.1 hr with rfl | hr
    · exact (settled_addTo h as).foldl bs
    · exact ih hr (addTo as b)

theorem addTo_of_unversioned (h : r.version = none) (as : List Release) :
    addTo as r = as ++ [r] := by
  apply addTo_of_not_same
  intro a _
  unfold same
  cases hv : a.version <;> simp [h]

/-- Only releases without a version are listed again. -/
theorem foldl_addTo_of_settled (h : ∀ r ∈ bs, r.version.isSome = true → Settled as r) :
    bs.foldl addTo as = as ++ unversioned bs := by
  induction bs generalizing as with
  | nil => simp [unversioned]
  | cons b bs ih =>
    have hrest : ∀ r ∈ bs, r.version.isSome = true → Settled (addTo as b) r := by
      intro r hr hversion
      exact (h r (List.mem_cons_of_mem b hr) hversion).addTo b
    rw [List.foldl_cons, ih hrest]
    cases hb : b.version with
    | none => simp [addTo_of_unversioned hb, unversioned, hb]
    | some v =>
      have hdone : addTo as b = as := h b List.mem_cons_self (by simp [hb])
      simp [hdone, unversioned, hb]

/-- A list that releases no version twice is settled. -/
theorem settled_of_nodup (honce : (versions as).Nodup) (hr : r ∈ as)
    (h : r.version.isSome = true) : Settled as r := by
  induction as with
  | nil => cases hr
  | cons a as ih =>
    obtain ⟨v, hv⟩ := Option.isSome_iff_exists.1 h
    rw [versions_cons, List.nodup_append] at honce
    obtain ⟨-, hrest, hapart⟩ := honce
    rcases List.mem_cons.1 hr with rfl | hr
    · exact (settled_cons_of_same (by simp [same, h])).2 r.absorb_self
    · have hin : v ∈ versions as := mem_versions.2 ⟨r, hr, hv⟩
      have hsame : a.same r = false := by
        rw [Bool.eq_false_iff]
        intro hsame
        have ha := (same_iff hv).1 hsame
        exact hapart v (by simp [ha]) v hin rfl
      exact (settled_cons hsame).2 (ih hrest hr)

end Release

/-- What one side has taken in before, it does not take in again. -/
structure Settles {α : Type} (merge : SubsumeFlags → α → α → α) : Prop where
  self : ∀ a, merge twoWay a a = a
  again : ∀ a b, merge twoWay (merge twoWay a b) b = merge twoWay a b
  back : ∀ a b, merge twoWay (merge fillBack a b) a = merge fillBack a b

theorem settles_mergeScalar : Settles mergeScalar := by
  have hforth (a b : Option String) : mergeScalar twoWay a b = a.or b :=
    mergeScalar_of_keepsExisting rfl a b
  have hback (a b : Option String) : mergeScalar fillBack a b = a.or b :=
    mergeScalar_of_keepsExisting rfl a b
  refine ⟨?_, ?_, ?_⟩
  · intro a
    cases a <;> simp [hforth]
  · intro a b
    cases a <;> cases b <;> simp [hforth]
  · intro a b
    cases a <;> cases b <;> simp [hforth, hback]

theorem settles_mergeComponentKind : Settles mergeComponentKind := by
  have hforth : twoWay.keepsExisting = true := rfl
  have hback : fillBack.keepsExisting = true := rfl
  refine ⟨?_, ?_, ?_⟩
  · intro a
    simp [mergeComponentKind]
  · intro a b
    by_cases ha : a = .unset <;> by_cases hb : b = .unset <;>
      simp [mergeComponentKind, hforth, ha, hb]
  · intro a b
    by_cases ha : a = .unset <;> by_cases hb : b = .unset <;>
      simp [mergeComponentKind, hforth, hback, ha, hb]

theorem settles_union {ι : Type} : Settles fun _ => @FlagSet.union ι := by
  refine ⟨?_, ?_, ?_⟩
  · intro a
    ext i
    simp
  · intro a b
    ext i
    simp
  · intro a b
    ext i
    cases ha : a.has i <;> simp [ha]

theorem settles_mergeText : Settles mergeText := by
  have hforth (a b : LocaleMap) (l : String) :
      (mergeText twoWay a b).get? l = (a.get? l).or (b.genuine l) :=
    get?_mergeText_of_dedupe rfl rfl a b l
  have hback (a b : LocaleMap) (l : String) :
      (mergeText fillBack a b).get? l = (a.get? l).or (b.genuine l) :=
    get?_mergeText_of_dedupe rfl rfl a b l
  have hgenuine (m : LocaleMap) (l : String) (h : m.get? l = none) : m.genuine l = none := by
    simp [LocaleMap.genuine, h]
  refine ⟨?_, ?_, ?_⟩
  · intro a
    apply TextMap.ext_get?
    intro l
    rw [hforth]
    cases ha : a.get? l with
    | none => simp [hgenuine a l ha]
    | some text => rfl
  · intro a b
    apply TextMap.ext_get?
    intro l
    rw [hforth, hforth]
    cases a.get? l <;> cases b.genuine l <;> rfl
  · intro a b
    apply TextMap.ext_get?
    intro l
    rw [hforth, hback]
    cases ha : a.get? l with
    | none => simp [hgenuine a l ha]
    | some text => rfl

/-- Where values are overwritten, the same value takes its own place. -/
theorem settles_annotation : Settles fun flags => mergeText (flags.erase .dedupe) := by
  have hforth (a b : TextMap String) (k : String) :
      (mergeText (twoWay.erase .dedupe) a b).get? k = (b.get? k).or (a.get? k) :=
    get?_mergeText_of_overwrite rfl rfl rfl a b k
  have hback (a b : TextMap String) (k : String) :
      (mergeText (fillBack.erase .dedupe) a b).get? k = (a.get? k).or (b.get? k) :=
    get?_mergeText_of_keep rfl rfl rfl a b k
  refine ⟨?_, ?_, ?_⟩
  · intro a
    apply TextMap.ext_get?
    intro k
    rw [hforth]
    cases a.get? k <;> rfl
  · intro a b
    apply TextMap.ext_get?
    intro k
    rw [hforth, hforth]
    cases b.get? k <;> rfl
  · intro a b
    apply TextMap.ext_get?
    intro k
    rw [hforth, hback]
    cases a.get? k <;> rfl

theorem settles_mergeKeywords : Settles mergeKeywords := by
  have hforth (a b : TextMap (List String)) (l : String) :
      (mergeKeywords twoWay a b).get? l = (b.get? l).elim (a.get? l) fun words =>
        some (words.foldl addNew (a.getD l [])) := get?_mergeKeywords rfl a b l
  have hback (a b : TextMap (List String)) (l : String) :
      (mergeKeywords fillBack a b).get? l = (b.get? l).elim (a.get? l) fun words =>
        some (words.foldl addNew (a.getD l [])) := get?_mergeKeywords rfl a b l
  have hself (words : List String) : words.foldl addNew words = words :=
    foldl_addNew_of_subset fun _ h => h
  have htwice (words others : List String) :
      others.foldl addNew (others.foldl addNew words) = others.foldl addNew words :=
    foldl_addNew_of_subset fun _ h => mem_foldl_addNew.2 (.inr h)
  have hown (words others : List String) :
      words.foldl addNew (others.foldl addNew words) = others.foldl addNew words :=
    foldl_addNew_of_subset fun _ h => mem_foldl_addNew.2 (.inl h)
  refine ⟨?_, ?_, ?_⟩
  · intro a
    apply TextMap.ext_get?
    intro l
    rw [hforth, TextMap.getD]
    cases a.get? l with
    | none => rfl
    | some words => simp [hself]
  · intro a b
    apply TextMap.ext_get?
    intro l
    rw [hforth, TextMap.getD, hforth]
    cases b.get? l with
    | none => rfl
    | some words => simp [htwice]
  · intro a b
    apply TextMap.ext_get?
    intro l
    rw [hforth, TextMap.getD, hback, TextMap.getD]
    cases a.get? l with
    | none => rfl
    | some words => cases b.get? l <;> simp [hself, hown]

theorem settles_mergeEntries {α : Type} {same : α → α → Bool} (hrefl : ∀ a, same a a = true) :
    Settles (mergeEntries (addUnlessSame same)) := by
  have hforth (as bs : List α) : mergeEntries (addUnlessSame same) twoWay as bs =
      bs.foldl (addUnlessSame same) as := mergeEntries_eq_foldl rfl as bs
  have hback (as bs : List α) : mergeEntries (addUnlessSame same) fillBack as bs =
      bs.foldl (addUnlessSame same) as := mergeEntries_eq_foldl rfl as bs
  refine ⟨?_, ?_, ?_⟩
  · intro as
    rw [hforth]
    exact foldl_addUnlessSame_of_subset hrefl fun _ h => h
  · intro as bs
    rw [hforth, hforth]
    exact foldl_addUnlessSame_of_covered fun e he => exists_same_foldl hrefl (.inr he)
  · intro as bs
    rw [hforth, hback]
    exact foldl_addUnlessSame_of_subset hrefl fun e he => mem_foldl_of_mem he

theorem settles_mergeList : Settles mergeList := by
  have hrefl (a : String) : (fun a b : String => decide (a = b)) a a = true := by simp
  exact settles_mergeEntries hrefl

/-- A description that has taken in another one. -/
inductive Digests (d : Component) : Component → Prop
  | self : Digests d d
  | merged (c : Component) : Digests d (c.subsume twoWay d)
  | salvaged (c : Component) : Digests d (d.subsume salvage c)
  | filled (c : Component) : Digests d (d.subsume fillBack c)

namespace Digests

variable {d k : Component}

/-- An attribute that settles says all that the description said. -/
theorem get_eq {α : Type} {merge : SubsumeFlags → α → α → α} (f : Attribute merge)
    (hs : Settles merge)
    (hf : salvage.has f.flag = true → ∀ a b, merge salvage a b = merge fillBack a b)
    (h : Digests d k) : merge twoWay (f.get k) (f.get d) = f.get k := by
  cases h with
  | self => exact hs.self _
  | merged c =>
    rw [f.get_subsume full_twoWay]
    exact hs.again _ _
  | salvaged c =>
    rw [f.subsume_eq]
    split
    · rename_i hflag
      rw [hf hflag]
      exact hs.back _ _
    · exact hs.self _
  | filled c =>
    rw [f.get_subsume full_fillBack]
    exact hs.back _ _

theorem get_subsume {α : Type} {merge : SubsumeFlags → α → α → α} (f : Attribute merge)
    (hs : Settles merge) (hf : salvage.has f.flag = false) (h : Digests d k) :
    f.get (k.subsume twoWay d) = f.get k := by
  rw [f.get_subsume full_twoWay]
  exact h.get_eq f hs fun hflag => absurd (hf.symm.trans hflag) Bool.false_ne_true

theorem get_collection (l : Collection) (h : Digests d k) :
    l.get (k.subsume twoWay d) = l.get k := by
  have hs := settles_mergeEntries l.same_refl
  have hsalvage (as bs : List l.Entry) : mergeEntries (addUnlessSame l.same) salvage as bs =
      mergeEntries (addUnlessSame l.same) fillBack as bs := by
    rw [mergeEntries_eq_foldl rfl, mergeEntries_eq_foldl rfl]
  change l.field.get _ = l.field.get _
  rw [l.field.get_subsume full_twoWay]
  exact h.get_eq l.field hs fun _ => hsalvage

theorem settled (h : Digests d k) (honce : (versions d.releases).Nodup) {r : Release}
    (hr : r ∈ d.releases) (hversion : r.version.isSome = true) :
    Release.Settled k.releases r := by
  have hown := Release.settled_of_nodup honce hr hversion
  cases h with
  | self => exact hown
  | merged c =>
    rw [Component.releases_subsume_of_full full_twoWay]
    exact Release.settled_foldl hversion hr c.releases
  | salvaged c =>
    have heq : (d.subsume salvage c).releases = c.releases.foldl Release.addTo d.releases :=
      mergeEntries_eq_foldl rfl _ _
    rw [heq]
    exact hown.foldl c.releases
  | filled c =>
    rw [Component.releases_subsume_of_full full_fillBack]
    exact hown.foldl c.releases

end Digests

/-- A description that was taken in gives nothing but its releases without a version. -/
theorem Digests.subsume_eq {d k : Component} (h : Digests d k)
    (honce : (versions d.releases).Nodup) :
    k.subsume twoWay d =
      { k with releases := k.releases ++ unversioned d.releases, tokens := none } := by
  have hscalars : ∀ f ∈ Component.scalars, salvage.has f.flag = false := by
    simp [Component.scalars, salvage, FlagSet.ofList]
  have htexts : ∀ f ∈ Component.translations, salvage.has f.flag = false := by
    simp [Component.translations, salvage, FlagSet.ofList]
  have hvalues : ∀ f ∈ Component.annotations, salvage.has f.flag = false := by
    simp [Component.annotations, salvage, FlagSet.ofList]
  have hlists : ∀ f ∈ Component.lists, salvage.has f.flag = false := by
    simp [Component.lists, salvage, FlagSet.ofList]
  have hreleases : (k.subsume twoWay d).releases = k.releases ++ unversioned d.releases := by
    rw [Component.releases_subsume_of_full full_twoWay]
    exact Release.foldl_addTo_of_settled fun r hr hversion => h.settled honce hr hversion
  rw [← hreleases]
  apply Component.eq_of_attributes
  · rfl
  · exact fun f hf => h.get_subsume f settles_mergeScalar (hscalars f hf)
  · exact h.get_subsume Component.kindAttribute settles_mergeComponentKind rfl
  · exact h.get_subsume Component.hallmarkAttribute settles_union rfl
  · exact fun f hf => h.get_subsume f settles_mergeText (htexts f hf)
  · exact fun f hf => h.get_subsume f settles_annotation (hvalues f hf)
  · exact h.get_subsume Component.keywordAttribute settles_mergeKeywords rfl
  · exact fun f hf => h.get_subsume f settles_mergeList (hlists f hf)
  · exact fun l _ => h.get_collection l

/-- The same where the lower priority gives its sources alone. -/
theorem subsume_salvage_again (c d : Component) :
    (c.subsume salvage d).subsume salvage d = { c.subsume salvage d with
      releases := (c.subsume salvage d).releases ++ unversioned d.releases } := by
  have hformats : d.formats.foldl addNew (c.subsume salvage d).formats =
      (c.subsume salvage d).formats := by
    apply foldl_addNew_of_subset
    intro f hf
    exact (Component.mem_formats_subsume rfl rfl).2 (.inr hf)
  have hreleases : d.releases.foldl Release.addTo (c.subsume salvage d).releases =
      (c.subsume salvage d).releases ++ unversioned d.releases := by
    apply Release.foldl_addTo_of_settled
    intro r hr hversion
    have heq : (c.subsume salvage d).releases = d.releases.foldl Release.addTo c.releases :=
      mergeEntries_eq_foldl rfl _ _
    rw [heq]
    exact Release.settled_foldl hversion hr c.releases
  have htwice : (c.subsume salvage d).subsume salvage d = { c.subsume salvage d with
      formats := mergeEntries addNew salvage (c.subsume salvage d).formats d.formats
      releases := mergeEntries Release.addTo salvage (c.subsume salvage d).releases d.releases } :=
    rfl
  rw [htwice, mergeEntries_eq_foldl rfl, mergeEntries_eq_foldl rfl, hformats, hreleases]

/-- What can stand for a description once it has met another one, or none. -/
inductive StandsIn (preferLocal : Bool) (d : Component) : Component → Prop
  | self : StandsIn preferLocal d d
  | met (c : Component) : StandsIn preferLocal d (reconcile preferLocal c d).kept

/-- A description that comes in once more is merged into what stands in for it, or gives its
sources to what stayed before it. -/
theorem StandsIn.reconcile_cases {preferLocal : Bool} {d k : Component}
    (h : StandsIn preferLocal d k) :
    (Digests d k ∧ reconcile preferLocal k d = mergeBoth .stored k d) ∨
    ∃ c : Component, k = c.subsume salvage d ∧ reconcile preferLocal k d = keepStored k d := by
  cases h with
  | self =>
    refine .inl ⟨.self, ?_⟩
    rw [reconcile_eq_outcome, ruling_of_alike (.inr (.inr rfl))]
    simp [Ruling.outcome]
  | met c =>
    have hself {flags : SubsumeFlags} (hformats : flags.has .formats = true)
        (hadd : flags.has .replace = false) (e : Component) :
        reconcile preferLocal (d.subsume flags e) d = mergeBoth .stored (d.subsume flags e) d := by
      have hruling := ruling_subsume_self preferLocal hformats hadd e d d.priority
      rw [reconcile_eq_outcome]
      exact congrArg (Ruling.outcome _ d) hruling
    rw [reconcile_eq_outcome preferLocal c d]
    cases hruling : ruling preferLocal c.formatKind d.formatKind c.priority d.priority with
    | keepStored =>
      refine .inr ⟨c, rfl, ?_⟩
      have hagain : ruling preferLocal (c.subsume salvage d).formatKind d.formatKind c.priority
          d.priority = ruling preferLocal c.formatKind d.formatKind c.priority d.priority :=
        ruling_subsume preferLocal rfl rfl c d c.priority d.priority
      rw [reconcile_eq_outcome]
      exact congrArg (Ruling.outcome _ d) (hagain.trans hruling)
    | keepIncoming => exact .inl ⟨.salvaged c, hself rfl rfl c⟩
    | merge survivor =>
      left
      cases survivor with
      | stored =>
        have hagain : ruling preferLocal (c.subsume twoWay d).formatKind d.formatKind c.priority
            d.priority = ruling preferLocal c.formatKind d.formatKind c.priority d.priority :=
          ruling_subsume preferLocal rfl rfl c d c.priority d.priority
        refine ⟨.merged c, ?_⟩
        rw [reconcile_eq_outcome]
        exact congrArg (Ruling.outcome _ d) (hagain.trans hruling)
      | incoming => exact ⟨.filled _, hself rfl rfl _⟩

/-- What stands in for a description stays as it is when that comes in once more, but for releases
without a version. -/
theorem StandsIn.reconcile_again {preferLocal : Bool} {d k : Component}
    (h : StandsIn preferLocal d k) (honce : (versions d.releases).Nodup) :
    (reconcile preferLocal k d).survivor = .stored ∧
    (reconcile preferLocal k d).stored =
      { k with releases := k.releases ++ unversioned d.releases, tokens := none } := by
  rcases h.reconcile_cases with ⟨hdigests, heq⟩ | ⟨c, rfl, heq⟩
  · rw [heq]
    exact ⟨rfl, hdigests.subsume_eq honce⟩
  · rw [heq]
    exact ⟨rfl, subsume_salvage_again c d⟩

end SoftwareCatalog
