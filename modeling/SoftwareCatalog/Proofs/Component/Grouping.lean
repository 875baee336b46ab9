import SoftwareCatalog.Proofs.Component.Absorption
import SoftwareCatalog.Proofs.Component.Built

namespace SoftwareCatalog

variable {flags : SubsumeFlags}

theorem mergeScalar_assoc (h : flags.keepsExisting = true) (a b c : Option String) :
    mergeScalar flags (mergeScalar flags a b) c = mergeScalar flags a (mergeScalar flags b c) := by
  simp only [mergeScalar_of_keepsExisting h, Option.or_assoc]

theorem mergeComponentKind_assoc (h : flags.keepsExisting = true) (a b c : ComponentKind) :
    mergeComponentKind flags (mergeComponentKind flags a b) c =
      mergeComponentKind flags a (mergeComponentKind flags b c) := by
  simp only [mergeComponentKind_of_keepsExisting h]
  by_cases ha : a = .unset <;> simp [ha]

theorem FlagSet.union_assoc {ι : Type} (a b c : FlagSet ι) :
    (a.union b).union c = a.union (b.union c) := by
  ext i
  simp only [has_union, Bool.or_assoc]

theorem mergeText_assoc (hadd : flags.has .replace = false) (hdedupe : flags.has .dedupe = false)
    (hkeep : flags.has .noOverwrite = true) (a b c : TextMap String) :
    mergeText flags (mergeText flags a b) c = mergeText flags a (mergeText flags b c) := by
  apply TextMap.ext_get?
  intro k
  simp only [get?_mergeText_of_keep hadd hdedupe hkeep, Option.or_assoc]

theorem mergeKeywords_assoc (hadd : flags.has .replace = false) (a b c : TextMap (List String)) :
    mergeKeywords flags (mergeKeywords flags a b) c =
      mergeKeywords flags a (mergeKeywords flags b c) := by
  apply TextMap.ext_get?
  intro l
  simp only [get?_mergeKeywords hadd, TextMap.getD]
  cases hb : b.get? l with
  | none =>
    cases c.get? l with
    | none => rfl
    | some words => simp [← foldl_addNew_assoc _ [] words]
  | some others =>
    cases c.get? l with
    | none => rfl
    | some words => simp [foldl_addNew_assoc]

theorem mergeEntries_assoc {α : Type} {add : List α → α → List α}
    (hadd : flags.has .replace = false) {as bs cs : List α}
    (h : cs.foldl add (bs.foldl add as) = (cs.foldl add bs).foldl add as) :
    mergeEntries add flags (mergeEntries add flags as bs) cs =
      mergeEntries add flags as (mergeEntries add flags bs cs) := by
  simp only [mergeEntries_eq_foldl hadd]
  exact h

namespace Release

variable {b c q : Release} {v : String}

/-- A gap is filled by the first value there is. -/
theorem fill_assoc {α : Type} [DecidableEq α] (gap x y z : α) :
    (if (if x = gap then y else x) = gap then z else if x = gap then y else x) =
      if x = gap then (if y = gap then z else y) else x := by
  by_cases hx : x = gap <;> simp [hx]

theorem absorb_assoc (r s t : Release) : (r.absorb s).absorb t = r.absorb (s.absorb t) := by
  ext1
  · rfl
  · exact fill_assoc .unset r.kind s.kind t.kind
  · exact fill_assoc 0 r.timestamp s.timestamp t.timestamp
  · exact fill_assoc .unset r.urgency s.urgency t.urgency
  · cases hr : r.hasDescription <;> cases hs : s.hasDescription <;>
      simp_all [absorb, hasDescription]
  · exact foldl_addNew_assoc r.locations s.locations t.locations

/-- Two descriptions of one release that come in one after the other come in as one. -/
theorem addTo_addTo_of_same (h : b.same c = true) (as : List Release) :
    addTo (addTo as b) c = addTo as (b.absorb c) := by
  have hversion := version_eq_of_same h
  induction as with
  | nil => simp [addTo, h]
  | cons a as ih =>
    have habsorbed : a.same (b.absorb c) = a.same b := rfl
    have hlater : a.same c = a.same b := by simp only [same, hversion]
    cases hsame : a.same b with
    | true =>
      have hstill : (a.absorb b).same c = true := hlater.trans hsame
      simp only [addTo, habsorbed, hsame, hstill, if_true, absorb_assoc]
    | false =>
      have hapart : a.same c = false := hlater.trans hsame
      simp only [addTo, habsorbed, hsame, hapart, Bool.false_eq_true, if_false, ih]

/-- Where a version is listed already, what else is said of it and other releases come in in any
order. -/
theorem addTo_comm {as : List Release} (hv : v ∈ versions as) (hc : c.version = some v)
    (hq : q.version ≠ some v) : addTo (addTo as q) c = addTo (addTo as c) q := by
  induction as with
  | nil => nomatch hv
  | cons a as ih =>
    have habsorbed (r s : Release) : (a.absorb r).same s = a.same s := rfl
    cases hown : a.same c with
    | true =>
      have hother : a.same q = false := by
        rw [Bool.eq_false_iff]
        intro hsame
        have ha := (same_iff hc).1 hown
        exact hq ((version_eq_of_same hsame) ▸ ha)
      simp only [addTo, habsorbed, hown, hother, if_true, Bool.false_eq_true, if_false]
    | false =>
      have hlater : v ∈ versions as := by
        obtain ⟨r, hr, hversion⟩ := mem_versions.1 hv
        rcases List.mem_cons.1 hr with rfl | hr
        · exact absurd ((same_iff hc).2 hversion) (Bool.eq_false_iff.1 hown)
        · exact mem_versions.2 ⟨r, hr, hversion⟩
      cases hother : a.same q with
      | true => simp only [addTo, habsorbed, hown, hother, if_true, Bool.false_eq_true, if_false]
      | false => simp only [addTo, hown, hother, Bool.false_eq_true, if_false, ih hlater]

theorem addTo_foldl_comm {as rs : List Release} (hv : v ∈ versions as) (hc : c.version = some v)
    (hrs : v ∉ versions rs) : addTo (rs.foldl addTo as) c = rs.foldl addTo (addTo as c) := by
  induction rs generalizing as with
  | nil => rfl
  | cons q rs ih =>
    have hq : q.version ≠ some v := fun h => hrs (mem_versions.2 ⟨q, List.mem_cons_self, h⟩)
    have hrest : v ∉ versions rs := by
      intro h
      obtain ⟨r, hr, hversion⟩ := mem_versions.1 h
      exact hrs (mem_versions.2 ⟨r, List.mem_cons_of_mem q hr, hversion⟩)
    rw [List.foldl_cons, ih (mem_versions_addTo.2 (.inl hv)) hrest, addTo_comm hv hc hq]
    rfl

/-- A release that comes last comes to a list in the end, whichever list takes it in first. -/
theorem addTo_foldl {bs : List Release} (h : (versions bs).Nodup) (as : List Release)
    (c : Release) : addTo (bs.foldl addTo as) c = (addTo bs c).foldl addTo as := by
  induction bs generalizing as with
  | nil => rfl
  | cons b bs ih =>
    rw [versions_cons, List.nodup_append] at h
    obtain ⟨-, hrest, hapart⟩ := h
    rw [List.foldl_cons]
    cases hsame : b.same c with
    | true =>
      obtain ⟨v, hv⟩ : ∃ v, b.version = some v := by
        simp only [same, Bool.and_eq_true] at hsame
        exact Option.isSome_iff_exists.1 hsame.1
      have hc : c.version = some v := version_eq_of_same hsame ▸ hv
      have hlisted : v ∈ versions (addTo as b) := mem_versions_addTo.2 (.inr hv)
      have honce : v ∉ versions bs := fun hin => hapart v (by simp [hv]) v hin rfl
      have habsorbs : addTo (b :: bs) c = b.absorb c :: bs := by rw [addTo, if_pos hsame]
      rw [addTo_foldl_comm hlisted hc honce, addTo_addTo_of_same hsame, habsorbs, List.foldl_cons]
    | false =>
      have hpasses : addTo (b :: bs) c = b :: addTo bs c := by simp [addTo, hsame]
      rw [ih hrest (addTo as b), hpasses, List.foldl_cons]

/-- Lists of releases come together in any grouping. -/
theorem foldl_addTo_assoc {bs : List Release} (h : (versions bs).Nodup) (as cs : List Release) :
    cs.foldl addTo (bs.foldl addTo as) = (cs.foldl addTo bs).foldl addTo as := by
  induction cs generalizing bs with
  | nil => rfl
  | cons c cs ih =>
    have hnodup : (versions (addTo bs c)).Nodup := nodup_versions_foldl_addTo h [c]
    rw [List.foldl_cons, addTo_foldl h, ih hnodup]
    rfl

end Release

/-- Every group of fields is filled where it is empty. -/
def fillGaps : SubsumeFlags := SubsumeFlags.all.insert .noOverwrite

theorem full_fillGaps : fillGaps.Full where
  has f h := by simp [fillGaps, SubsumeFlags.all, h]
  adds := rfl

namespace Component

/-- Gaps are filled alike whether the last description comes in by itself or has filled those of
the one before it. -/
theorem subsume_fillGaps_assoc {b : Component} (hb : (versions b.releases).Nodup)
    (a c : Component) :
    (a.subsume fillGaps b).subsume fillGaps c = a.subsume fillGaps (b.subsume fillGaps c) := by
  have hadd : fillGaps.has .replace = false := rfl
  have hkeeps : fillGaps.keepsExisting = true := rfl
  have hreleases : ((a.subsume fillGaps b).subsume fillGaps c).releases =
      (a.subsume fillGaps (b.subsume fillGaps c)).releases := by
    simp only [releases_subsume_of_full full_fillGaps, Release.foldl_addTo_assoc hb]
  suffices hrest : (a.subsume fillGaps b).subsume fillGaps c =
      { a.subsume fillGaps (b.subsume fillGaps c) with
        releases := ((a.subsume fillGaps b).subsume fillGaps c).releases } by
    rw [hrest, hreleases]
  refine eq_of_attributes rfl ?scalar ?kind ?hallmarks ?text ?values ?keywords ?list ?collection
  case scalar =>
    intro f _
    simp only [f.get_subsume full_fillGaps, mergeScalar_assoc hkeeps]
  case kind => simp only [kindAttribute.get_subsume full_fillGaps, mergeComponentKind_assoc hkeeps]
  case hallmarks =>
    simp only [hallmarkAttribute.get_subsume full_fillGaps, FlagSet.union_assoc]
  case text =>
    intro f _
    simp only [f.get_subsume full_fillGaps]
    exact mergeText_assoc hadd rfl rfl _ _ _
  case values =>
    intro f _
    simp only [f.get_subsume full_fillGaps]
    exact mergeText_assoc (by decide) (by decide) (by decide) _ _ _
  case keywords => simp only [keywordAttribute.get_subsume full_fillGaps, mergeKeywords_assoc hadd]
  case list =>
    intro f _
    simp only [f.get_subsume full_fillGaps, mergeList]
    exact mergeEntries_assoc hadd (foldl_addNew_assoc _ _ _)
  case collection =>
    intro k _
    simp only [k.get_subsume full_fillGaps]
    exact foldl_addUnlessSame_assoc k.same_refl k.same_trans _ _ _

/-- An order in which descriptions are put together, two at a time. -/
inductive Grouping where
  | single (c : Component)
  | pair (s t : Grouping)

namespace Grouping

/-- The descriptions from the first to the last. -/
def parts : Grouping → List Component
  | .single c => [c]
  | .pair s t => s.parts ++ t.parts

/-- The one description that is left in the end. -/
def merged : Grouping → Component
  | .single c => c
  | .pair s t => s.merged.subsume fillGaps t.merged

theorem merged_built {s : Grouping} (h : ∀ c ∈ s.parts, c.Built) : s.merged.Built := by
  induction s with
  | single c => exact h c (by simp [parts])
  | pair s t hs ht =>
    simp only [parts, List.mem_append] at h
    exact (hs fun c hc => h c (.inl hc)).subsume (ht fun c hc => h c (.inr hc)) fillGaps

/-- A description has the same gaps filled by a group as by its members one after the other. -/
theorem subsume_merged {s : Grouping} (h : ∀ c ∈ s.parts, c.Built) (a : Component) :
    a.subsume fillGaps s.merged = s.parts.foldl (subsume fillGaps) a := by
  induction s generalizing a with
  | single c => rfl
  | pair s t hs ht =>
    simp only [parts, List.mem_append] at h
    have hbuilt : s.merged.Built := merged_built fun c hc => h c (.inl hc)
    have hregroup := subsume_fillGaps_assoc hbuilt.tidy.versions a t.merged
    rw [merged, ← hregroup, hs fun c hc => h c (.inl hc), ht fun c hc => h c (.inr hc), parts,
      List.foldl_append]

/-- The first description with its gaps filled by each of the others in turn. -/
theorem merged_eq_foldl {s : Grouping} (h : ∀ c ∈ s.parts, c.Built) :
    ∃ first rest, s.parts = first :: rest ∧ s.merged = rest.foldl (subsume fillGaps) first := by
  induction s with
  | single c => exact ⟨c, [], rfl, rfl⟩
  | pair s t hs _ =>
    simp only [parts, List.mem_append] at h
    obtain ⟨first, rest, hparts, hmerged⟩ := hs fun c hc => h c (.inl hc)
    refine ⟨first, rest ++ t.parts, by rw [parts, hparts, List.cons_append], ?_⟩
    rw [merged, subsume_merged fun c hc => h c (.inr hc), hmerged, List.foldl_append]

end Grouping

/-- Descriptions that fill gaps come to the same whole in any grouping: three of them, whichever
two are put together first, and as many as there are. -/
theorem fillGaps_regroup :
    (∀ a b c : Component, a.Built → b.Built → c.Built →
      (a.subsume fillGaps b).subsume fillGaps c = a.subsume fillGaps (b.subsume fillGaps c)) ∧
    (∀ s t : Grouping, (∀ c ∈ s.parts, c.Built) → s.parts = t.parts → s.merged = t.merged) := by
  constructor
  · intro a b c _ hb _
    exact subsume_fillGaps_assoc hb.tidy.versions a c
  · intro s t hbuilt hparts
    obtain ⟨first, rest, hs, hmerged⟩ := Grouping.merged_eq_foldl hbuilt
    obtain ⟨first', rest', ht, hmerged'⟩ := Grouping.merged_eq_foldl (hparts ▸ hbuilt)
    rw [hs, ht] at hparts
    obtain ⟨rfl, rfl⟩ := List.cons.inj hparts
    rw [hmerged, hmerged']

/-- A component with one release of version 1.0. -/
def released (kind : ReleaseKind) (timestamp : Nat) (location : String) : Component :=
  ({} : Component).addRelease ⟨some "1.0", kind, timestamp, .unset, .empty, [location]⟩

theorem built_released (kind : ReleaseKind) (timestamp : Nat) (location : String) :
    (released kind timestamp location).Built :=
  .gains .blank (.release _)

/-- Three descriptions of one release fill its gaps in either grouping. -/
theorem released_regroup :
    ((released .unset 0 "a").subsume fillGaps (released .unset 5 "b")).subsume fillGaps
        (released .stable 7 "a") =
      (released .unset 0 "a").subsume fillGaps
        ((released .unset 5 "b").subsume fillGaps (released .stable 7 "a")) ∧
    (((released .unset 0 "a").subsume fillGaps (released .unset 5 "b")).subsume fillGaps
        (released .stable 7 "a")).releases =
      [⟨some "1.0", .stable, 5, .unset, .empty, ["a", "b"]⟩] :=
  ⟨fillGaps_regroup.1 _ _ _ (built_released ..) (built_released ..) (built_released ..), by
    decide +kernel⟩

end Component

end SoftwareCatalog
