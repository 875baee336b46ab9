import SoftwareCatalog.Proofs.Component.FirstCome
import SoftwareCatalog.Proofs.Component.Release

namespace SoftwareCatalog

namespace Release

/-- What the releases with the version of `r`, the first of which is `r`, say together. -/
def together (rs : List Release) (r : Release) : Release := (rs.filter r.same).tail.foldl absorb r

variable {r s e : Release} {rs : List Release}

theorem same_iff_version : r.same s = true ↔ r.version.isSome = true ∧ r.version = s.version := by
  simp [same]

theorem same_trans (r s t : Release) (h : r.same s = true) (k : s.same t = true) :
    r.same t = true := by
  rw [same_iff_version] at h k ⊢
  exact ⟨h.1, h.2.trans k.2⟩

theorem same_symm (h : r.same s = true) : s.same r = true := by
  rw [same_iff_version] at h ⊢
  exact ⟨h.2 ▸ h.1, h.2.symm⟩

theorem same_congr (h : e.version = r.version) (s : Release) : e.same s = r.same s := by
  rw [same, same, h]

theorem version_together (rs : List Release) (r : Release) :
    (together rs r).version = r.version := by
  unfold together
  induction (rs.filter r.same).tail generalizing r with
  | nil => rfl
  | cons s ss ih => exact ih (r.absorb s)

theorem together_of_unversioned (h : r.version = none) (rs : List Release) : together rs r = r := by
  have hnone : rs.filter r.same = [] := by simp [same, h]
  rw [together, hnone]
  rfl

/-- A release that comes last is absorbed last. -/
theorem together_concat (hin : r ∈ rs) (s : Release) :
    together (rs ++ [s]) r = if r.same s then (together rs r).absorb s else together rs r := by
  cases hversion : r.version with
  | none =>
    have hother : r.same s = false := by simp [same, hversion]
    simp [together_of_unversioned hversion, hother]
  | some v =>
    have hself : r ∈ rs.filter r.same := List.mem_filter.2 ⟨hin, by simp [same, hversion]⟩
    obtain ⟨first, rest, hfilter⟩ := List.exists_cons_of_ne_nil (List.ne_nil_of_mem hself)
    unfold together
    rw [List.filter_append, hfilter]
    cases hs : r.same s <;> simp [hs]

theorem together_concat_self (h : ∀ e ∈ rs, e.same r = false) : together (rs ++ [r]) r = r := by
  have hnone : rs.filter r.same = [] := by
    rw [List.filter_eq_nil_iff]
    intro e he hsame
    have hback := same_symm hsame
    rw [h e he] at hback
    cases hback
  unfold together
  rw [List.filter_append, hnone]
  cases hs : r.same r <;> simp [hs]

/-- Where no two releases are the same at most one of them absorbs. -/
theorem addTo_of_distinct (h : Distinct same rs) (r : Release) : addTo rs r =
    if rs.any (·.same r) then rs.map fun e => if e.same r then e.absorb r else e
    else rs ++ [r] := by
  induction rs with
  | nil => rfl
  | cons e es ih =>
    obtain ⟨hhead, htail⟩ := List.pairwise_cons.1 h
    rw [addTo, List.any_cons]
    cases he : e.same r with
    | true =>
      have hothers : es.map (fun s => if s.same r then s.absorb r else s) = es := by
        refine (List.map_congr_left fun s hs => if_neg ?_).trans (List.map_id' es)
        intro hsame
        have hback := same_trans _ _ _ he (same_symm hsame)
        rw [hhead s hs] at hback
        cases hback
      simp [he, hothers]
    | false =>
      rw [ih htail]
      cases es.any (·.same r) <;> simp [he]

theorem any_map_together (rs : List Release) (r : Release) :
    ((firsts same rs).map (together rs)).any (·.same r) = rs.any (·.same r) := by
  have hsame : (fun e : Release => (together rs e).same r) = fun e => e.same r :=
    funext fun e => same_congr (version_together rs e) r
  rw [List.any_map, Function.comp_def, hsame]
  exact any_firsts same_trans rs r

/-- Releases that are added one by one are kept where their version comes first, together with all
that the later ones of this version say; those without a version are all kept. -/
theorem foldl_addTo_eq (rs : List Release) :
    rs.foldl addTo [] = (firsts same rs).map (together rs) := by
  induction rs using List.reverseRecOn with
  | nil => rfl
  | append_singleton rs r ih =>
    have hdistinct : Distinct same ((firsts same rs).map (together rs)) := by
      refine List.pairwise_map.2 ((distinct_firsts same rs).imp ?_)
      intro e s hes
      rwa [same, version_together, version_together]
    rw [List.foldl_append, ih, List.foldl_cons, List.foldl_nil, addTo_of_distinct hdistinct,
      any_map_together, firsts_concat, List.map_append]
    have hlater : (firsts same rs).map (together (rs ++ [r])) =
        ((firsts same rs).map (together rs)).map fun e => if e.same r then e.absorb r else e := by
      rw [List.map_map]
      refine List.map_congr_left fun e he => ?_
      rw [together_concat (mem_of_mem_firsts he), Function.comp_apply,
        same_congr (version_together rs e)]
    cases hin : rs.any (·.same r) with
    | true => simp [hlater]
    | false =>
      have hnew : ∀ e ∈ rs, e.same r = false := by simpa using hin
      have hkept : (firsts same rs).map (together (rs ++ [r])) =
          (firsts same rs).map (together rs) := by
        refine List.map_congr_left fun e he => ?_
        rw [together_concat (mem_of_mem_firsts he), hnew e (mem_of_mem_firsts he)]
        rfl
      simp [hkept, together_concat_self hnew]

end Release

/-- What a source says of a component and could say twice. -/
inductive SourceEntry where
  | release (r : Release)
  | screenshot (s : Screenshot)
  | contentRating (r : ContentRating)

namespace SourceEntry

def release? : SourceEntry → Option Release
  | .release r => some r
  | _ => none

def screenshot? : SourceEntry → Option Screenshot
  | .screenshot s => some s
  | _ => none

def contentRating? : SourceEntry → Option ContentRating
  | .contentRating r => some r
  | _ => none

end SourceEntry

namespace Component

def addSourceEntry (c : Component) : SourceEntry → Component
  | .release r => c.addSourceRelease r
  | .screenshot s => c.addSourceScreenshot s
  | .contentRating r => c.addSourceContentRating r

/-- What a component keeps of the entries of its source, and the faults that it marks in them. -/
structure Recounts (rs : List Release) (ss : List Screenshot) (ts : List ContentRating)
    (c : Component) : Prop where
  releases : c.releases = (firsts Release.same rs).map (Release.together rs)
  screenshots : c.screenshots = firsts Screenshot.same ss
  contentRatings : c.contentRatings = firsts ContentRating.same ts
  duplicateRelease : c.faults.has .duplicateRelease = true ↔
    Repeats (fun r s => r.version.isSome = true ∧ r.version = s.version) rs
  duplicateScreenshot : c.faults.has .duplicateScreenshot = true ↔
    Repeats (fun s t => s.kind = t.kind ∧ s.caption = t.caption ∧ s.images = t.images) ss
  duplicateContentRating : c.faults.has .duplicateContentRating = true ↔
    Repeats (fun r s => r.kind = s.kind) ts

variable {c : Component} {rs : List Release} {ss : List Screenshot} {ts : List ContentRating}

theorem addSourceRelease_eq (c : Component) (r : Release) : c.addSourceRelease r =
    { c with
      releases := Release.addTo c.releases r
      faults := if c.releases.any (·.same r) then c.faults.insert .duplicateRelease
        else c.faults } := by
  unfold addSourceRelease
  split <;> rfl

theorem addSourceScreenshot_eq (c : Component) (s : Screenshot) : c.addSourceScreenshot s =
    { c with
      screenshots := addUnlessSame Screenshot.same c.screenshots s
      faults := if c.screenshots.any (·.same s) then c.faults.insert .duplicateScreenshot
        else c.faults } := by
  unfold addSourceScreenshot
  split <;> rfl

theorem addSourceContentRating_eq (c : Component) (r : ContentRating) :
    c.addSourceContentRating r =
      { c with
        contentRatings := addUnlessSame ContentRating.same c.contentRatings r
        faults := if c.contentRatings.any (·.same r) then c.faults.insert .duplicateContentRating
          else c.faults } := by
  unfold addSourceContentRating
  split <;> rfl

theorem has_insertIf_self (fs : FlagSet Fault) (b : Bool) (f : Fault) :
    (if b then fs.insert f else fs).has f = (fs.has f || b) := by
  cases b <;> simp

theorem has_insertIf_of_ne {f g : Fault} (h : g ≠ f) (fs : FlagSet Fault) (b : Bool) :
    (if b then fs.insert f else fs).has g = fs.has g := by
  cases b <;> simp [h]

/-- A mark that is set where an entry is the same as a listed one is set where entries repeat. -/
theorem marked_iff {α : Type} {same : α → α → Bool} {related : α → α → Prop} {as : List α} {a : α}
    {marked known : Bool} (hrelated : ∀ b c, same b c = true ↔ related b c)
    (hmarked : marked = true ↔ Repeats related as) (hknown : known = as.any (same · a)) :
    (marked || known) = true ↔ Repeats related (as ++ [a]) := by
  rw [repeats_concat, Bool.or_eq_true, hmarked, hknown, List.any_eq_true]
  simp only [hrelated]

theorem screenshot_same_iff {s t : Screenshot} : s.same t = true ↔
    s.kind = t.kind ∧ s.caption = t.caption ∧ s.images = t.images := by
  simp [Screenshot.same, and_assoc]

theorem Recounts.release (h : Recounts rs ss ts c) (r : Release) :
    Recounts (rs ++ [r]) ss ts (c.addSourceRelease r) := by
  rw [addSourceRelease_eq]
  constructor
  · rw [← Release.foldl_addTo_eq, List.foldl_append, Release.foldl_addTo_eq, ← h.releases]
    rfl
  · exact h.screenshots
  · exact h.contentRatings
  · rw [has_insertIf_self]
    refine marked_iff (fun _ _ => Release.same_iff_version) h.duplicateRelease ?_
    rw [h.releases, Release.any_map_together]
  · rw [has_insertIf_of_ne (by decide)]
    exact h.duplicateScreenshot
  · rw [has_insertIf_of_ne (by decide)]
    exact h.duplicateContentRating

theorem Recounts.screenshot (h : Recounts rs ss ts c) (s : Screenshot) :
    Recounts rs (ss ++ [s]) ts (c.addSourceScreenshot s) := by
  have htrans (s t u : Screenshot) (hst : s.same t = true) (htu : t.same u = true) :
      s.same u = true := by
    rw [screenshot_same_iff] at hst htu ⊢
    exact ⟨hst.1.trans htu.1, hst.2.1.trans htu.2.1, hst.2.2.trans htu.2.2⟩
  rw [addSourceScreenshot_eq]
  constructor
  · exact h.releases
  · rw [← foldl_addUnlessSame_eq_firsts htrans, List.foldl_append,
      foldl_addUnlessSame_eq_firsts htrans, ← h.screenshots]
    rfl
  · exact h.contentRatings
  · rw [has_insertIf_of_ne (by decide)]
    exact h.duplicateRelease
  · rw [has_insertIf_self]
    refine marked_iff (fun _ _ => screenshot_same_iff) h.duplicateScreenshot ?_
    rw [h.screenshots, any_firsts htrans]
  · rw [has_insertIf_of_ne (by decide)]
    exact h.duplicateContentRating

theorem Recounts.contentRating (h : Recounts rs ss ts c) (r : ContentRating) :
    Recounts rs ss (ts ++ [r]) (c.addSourceContentRating r) := by
  have hsame (r s : ContentRating) : r.same s = true ↔ r.kind = s.kind := beq_iff_eq
  have htrans (r s t : ContentRating) (hrs : r.same s = true) (hst : s.same t = true) :
      r.same t = true :=
    (hsame r t).2 (((hsame r s).1 hrs).trans ((hsame s t).1 hst))
  rw [addSourceContentRating_eq]
  constructor
  · exact h.releases
  · exact h.screenshots
  · rw [← foldl_addUnlessSame_eq_firsts htrans, List.foldl_append,
      foldl_addUnlessSame_eq_firsts htrans, ← h.contentRatings]
    rfl
  · rw [has_insertIf_of_ne (by decide)]
    exact h.duplicateRelease
  · rw [has_insertIf_of_ne (by decide)]
    exact h.duplicateScreenshot
  · rw [has_insertIf_self]
    refine marked_iff hsame h.duplicateContentRating ?_
    rw [h.contentRatings, any_firsts htrans]

/-- Whatever a source says in whatever order, the faults of repetition are marked exactly where it
repeats itself. -/
theorem repetitions_recounted (hreleases : c.releases = []) (hscreenshots : c.screenshots = [])
    (hratings : c.contentRatings = []) (hfaults : c.faults = .empty) (es : List SourceEntry) :
    Recounts (es.filterMap (·.release?)) (es.filterMap (·.screenshot?))
      (es.filterMap (·.contentRating?)) (es.foldl addSourceEntry c) := by
  induction es using List.reverseRecOn with
  | nil =>
    have hclear (f : Fault) {α : Type} (related : α → α → Prop) :
        c.faults.has f = true ↔ Repeats related [] := by
      simp [hfaults, FlagSet.empty, Repeats]
    exact ⟨hreleases, hscreenshots, hratings, hclear _ _, hclear _ _, hclear _ _⟩
  | append_singleton es e ih =>
    rw [List.foldl_append]
    cases e with
    | release r =>
      simpa [SourceEntry.release?, SourceEntry.screenshot?, SourceEntry.contentRating?,
        addSourceEntry] using ih.release r
    | screenshot s =>
      simpa [SourceEntry.release?, SourceEntry.screenshot?, SourceEntry.contentRating?,
        addSourceEntry] using ih.screenshot s
    | contentRating r =>
      simpa [SourceEntry.release?, SourceEntry.screenshot?, SourceEntry.contentRating?,
        addSourceEntry] using ih.contentRating r

/-- A source with three descriptions of one release, two releases without a version, and two ratings
under different systems. -/
def repetitiveSource : List SourceEntry :=
  let release (version : Option String) (timestamp : Nat) : SourceEntry :=
    .release ⟨version, .stable, timestamp, .unset, .empty, []⟩
  [release (some "1.0") 0, .contentRating ⟨"oars-1.0", .empty⟩, release none 5,
    .screenshot ⟨.primary, .empty, [], 0⟩, release (some "2.0") 7, release (some "1.0") 3,
    .contentRating ⟨"oars-1.1", .empty⟩, .screenshot ⟨.primary, .empty, [], 1⟩, release none 5,
    release (some "1.0") 4]

/-- Its first release takes the second description's time; its screenshots differ in nothing but
their priority. -/
theorem repetitiveSource_recounted :
    let c := ofId "org.demo.App"
    let d := repetitiveSource.foldl addSourceEntry c
    (c.releases = [] ∧ c.screenshots = [] ∧ c.contentRatings = [] ∧ c.faults = .empty) ∧
      Recounts (repetitiveSource.filterMap (·.release?))
        (repetitiveSource.filterMap (·.screenshot?))
        (repetitiveSource.filterMap (·.contentRating?)) d ∧
      d.releases.map (fun r => (r.version, r.timestamp)) =
        [(some "1.0", 3), (none, 5), (some "2.0", 7), (none, 5)] ∧
      d.screenshots.map (·.priority) = [0] ∧ d.contentRatings.length = 2 ∧
      d.faults.members = [.duplicateRelease, .duplicateScreenshot] :=
  ⟨⟨rfl, rfl, rfl, rfl⟩, repetitions_recounted rfl rfl rfl rfl _, by decide +kernel,
    by decide +kernel, by decide +kernel, by decide +kernel⟩

end Component

end SoftwareCatalog
