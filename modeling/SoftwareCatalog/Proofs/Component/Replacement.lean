import SoftwareCatalog.Proofs.Component.Absorption
import SoftwareCatalog.Proofs.Component.Addon
import SoftwareCatalog.Proofs.Component.Built

namespace SoftwareCatalog

variable {flags : SubsumeFlags}

theorem mergeEntries_of_replace {α : Type} {add : List α → α → List α}
    (h : flags.has .replace = true) {donor : List α} (hdonor : donor.foldl add [] = donor)
    (target : List α) :
    mergeEntries add flags target donor = if donor.isEmpty then target else donor := by
  rw [mergeEntries, if_pos h, hdonor]

theorem mergeText_of_replace (h : flags.has .replace = true) (hdedupe : flags.has .dedupe = false)
    (target donor : TextMap String) :
    mergeText flags target donor = if donor.isEmpty then target else donor := by
  have hcopy : donor.entries.foldl (mergeEntry flags donor) .empty = donor := by
    apply TextMap.ext_get?
    intro k
    have hfree (text : String) : leavesOut flags donor .empty k text = false := by
      simp [leavesOut, hdedupe, TextMap.contains]
    rw [get?_foldl_mergeEntry]
    cases donor.get? k with
    | none => simp
    | some text => simp [hfree]
  rw [mergeText, if_pos h, hcopy]

theorem mergeKeywords_of_replace (h : flags.has .replace = true) {donor : TextMap (List String)}
    (hdonor : ∀ l words, donor.get? l = some words → words.Nodup)
    (target : TextMap (List String)) :
    mergeKeywords flags target donor = if donor.isEmpty then target else donor := by
  have hcopy : donor.entries.foldl mergeWords .empty = donor := by
    apply TextMap.ext_get?
    intro l
    rw [get?_foldl_mergeWords]
    cases hl : donor.get? l with
    | none => simp
    | some words => simp [TextMap.getD, foldl_addNew_of_nodup (hdonor l words hl)]
  rw [mergeKeywords, if_pos h]
  exact congrArg (fun m => if donor.isEmpty then target else m) hcopy

namespace Component

/-- `e` has the lists and maps of `p` in place of those of `t` where `p` has any, and else what `t`
has with its gaps filled; formats stay. -/
structure Replaced (t p e : Component) : Prop where
  core : e.core = t.core
  formats : e.formats = t.formats
  scalar : ∀ f ∈ scalars, f.get e = (f.get t).or (f.get p)
  kind : e.kind = if t.kind = .unset then p.kind else t.kind
  hallmarks : e.hallmarks = t.hallmarks.union p.hallmarks
  text : ∀ f ∈ translations, f.get e = if (f.get p).isEmpty then f.get t else f.get p
  annotation : ∀ f ∈ annotations, f.get e = if (f.get p).isEmpty then f.get t else f.get p
  keywords : e.keywords = if p.keywords.isEmpty then t.keywords else p.keywords
  list : ∀ f ∈ lists, f.get e = if (f.get p).isEmpty then f.get t else f.get p
  collection : ∀ k ∈ collections, k.field.flag ≠ .formats →
    k.get e = if (k.get p).isEmpty then k.get t else k.get p
  release : e.releases = if p.releases.isEmpty then t.releases else p.releases

/-- A patch that replaces puts its own lists and maps in the place of those of its target. -/
theorem replaced_by_patch {p : Component} (hp : p.Built) (hreplace : p.mergeKind = .replace)
    (t : Component) : Replaced t p (t.subsume (patchFlags p) p) := by
  have hclears : (patchFlags p).has .replace = true := (patchFlags_replace p).2 hreplace
  have hkeeps : (patchFlags p).keepsExisting = true := keepsExisting_patchFlags p
  have hdedupe : (patchFlags p).has .dedupe = false := by
    unfold patchFlags
    split <;> rfl
  have hmerged {α : Type} {merge : SubsumeFlags → α → α → α} (f : Attribute merge)
      (hne : f.flag ≠ .formats) :
      f.get (t.subsume (patchFlags p) p) = merge (patchFlags p) (f.get t) (f.get p) := by
    rw [f.subsume_eq, if_pos (patchFlags_has p f.isField hne)]
  refine
    { core := rfl
      formats := formats_subsume_of_not (patchFlags_formats p)
      scalar := ?scalar
      kind := ?kind
      hallmarks := hmerged hallmarkAttribute (by decide)
      text := ?text
      annotation := ?values
      keywords := ?keywords
      list := ?list
      collection := ?collection
      release := ?release }
  case scalar =>
    intro f hf
    rw [hmerged f (by revert f; simp [scalars])]
    exact mergeScalar_of_keepsExisting hkeeps _ _
  case kind =>
    have hkind := hmerged kindAttribute (by decide)
    exact hkind.trans (mergeComponentKind_of_keepsExisting hkeeps _ _)
  case text =>
    intro f hf
    rw [hmerged f (by revert f; simp [translations])]
    exact mergeText_of_replace hclears hdedupe _ _
  case values =>
    intro f hf
    rw [hmerged f (by revert f; simp [annotations])]
    exact mergeText_of_replace (by simp [hclears]) (by simp) _ _
  case keywords =>
    have hkeywords := hmerged keywordAttribute (by decide)
    exact hkeywords.trans (mergeKeywords_of_replace hclears hp.terse.keyword _)
  case list =>
    intro f hf
    rw [hmerged f (by revert f; simp [lists])]
    exact mergeEntries_of_replace hclears (foldl_addNew_of_nodup (hp.terse.list f hf)) _
  case collection =>
    intro k hk hne
    have hdistinct : Distinct k.same ([] ++ k.get p) := hp.tidy.distinct k hk
    exact (hmerged k.field hne).trans
      (mergeEntries_of_replace hclears (foldl_addUnlessSame_of_distinct hdistinct) _)
  case release =>
    have hversions : (versions ([] ++ p.releases)).Nodup := hp.tidy.versions
    have hreleases := hmerged releaseAttribute (by decide)
    exact hreleases.trans (mergeEntries_of_replace hclears (foldl_addTo_of_nodup hversions) _)

/-- A component with a name and a category. -/
def oldCategory : Component :=
  ({ names := TextMap.empty.insert untranslated "Name" } : Component).addCategory "Old"

/-- A patch that says anew what a component is about. -/
def newCategory : Component := ({ mergeKind := .replace } : Component).addCategory "New"

/-- The new category is the only one, and the name stays. -/
theorem newCategory_replaces :
    newCategory.Built ∧ newCategory.mergeKind = .replace ∧
      (oldCategory.subsume (patchFlags newCategory) newCategory).categories = ["New"] ∧
      (oldCategory.subsume (patchFlags newCategory) newCategory).names = oldCategory.names := by
  have hbuilt : newCategory.Built := .lists (.sets .blank (.mergeKind .replace)) (.category "New")
  have hreplaced := replaced_by_patch hbuilt rfl oldCategory
  exact ⟨hbuilt, rfl, hreplaced.list _ List.mem_cons_self, hreplaced.text _ List.mem_cons_self⟩

end Component

end SoftwareCatalog
