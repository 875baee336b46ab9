import SoftwareCatalog.Proofs.Component.Release
import SoftwareCatalog.Proofs.TextMap

namespace SoftwareCatalog

variable {flags : SubsumeFlags} {target donor : LocaleMap} {l text : String}

/-- A text of the donor that merging leaves out. -/
def leavesOut (flags : SubsumeFlags) (donor target : LocaleMap) (l text : String) : Bool :=
  flags.has .dedupe && repeatsUntranslated donor l text || flags.keepsExisting && target.contains l

theorem get?_mergeEntry (flags : SubsumeFlags) (donor target : LocaleMap) (e : String × String)
    (l : String) : (mergeEntry flags donor target e).get? l =
      if l = e.1 ∧ leavesOut flags donor target e.1 e.2 = false then some e.2
      else target.get? l := by
  unfold mergeEntry leavesOut
  by_cases hdedupe : flags.has .dedupe && repeatsUntranslated donor e.1 e.2
  · simp [hdedupe]
  · by_cases hkeep : flags.keepsExisting && target.contains e.1 <;> simp [hdedupe, hkeep]

/-- Each key has what the donor brings for it or else what it had. -/
theorem get?_foldl_mergeEntry (flags : SubsumeFlags) (target donor : LocaleMap) (l : String) :
    (donor.entries.foldl (mergeEntry flags donor) target).get? l =
      (donor.get? l).elim (target.get? l) fun text =>
        if leavesOut flags donor target l text then target.get? l else some text := by
  have hother (m : LocaleMap) (e : String × String) (k : String) (hk : k ≠ e.1) :
      (mergeEntry flags donor m e).get? k = m.get? k := by
    rw [get?_mergeEntry, if_neg fun h => hk h.1]
  have hown (m n : LocaleMap) (e : String × String) (h : m.get? e.1 = n.get? e.1) :
      (mergeEntry flags donor m e).get? e.1 = (mergeEntry flags donor n e).get? e.1 := by
    simp only [get?_mergeEntry, leavesOut, TextMap.contains, h]
  rw [TextMap.get?_foldl_of_local hother hown donor.sorted]
  change (donor.get? l).elim _ _ = _
  cases donor.get? l with
  | none => rfl
  | some text =>
    simp only [Option.elim_some, get?_mergeEntry]
    cases leavesOut flags donor target l text <;> simp

theorem get?_mergeText (hadd : flags.has .replace = false) (target donor : LocaleMap) (l : String) :
    (mergeText flags target donor).get? l = (donor.get? l).elim (target.get? l) fun text =>
      if leavesOut flags donor target l text then target.get? l else some text := by
  have hfold : mergeText flags target donor =
      donor.entries.foldl (mergeEntry flags donor) target := by
    unfold mergeText TextMap.isEmpty
    cases donor.entries with
    | nil => rfl
    | cons e es => simp [hadd]
  rw [hfold, get?_foldl_mergeEntry]

/-- Where existing texts are to stay they do. -/
theorem get?_mergeText_of_some (hadd : flags.has .replace = false)
    (hkeeps : flags.keepsExisting = true) (h : target.get? l = some text) :
    (mergeText flags target donor).get? l = some text := by
  rw [get?_mergeText hadd, h]
  cases donor.get? l with
  | none => rfl
  | some other => simp [leavesOut, hkeeps, TextMap.contains, h]

theorem get?_mergeText_sourced (hadd : flags.has .replace = false)
    (h : (mergeText flags target donor).get? l = some text) :
    target.get? l = some text ∨ donor.get? l = some text := by
  rw [get?_mergeText hadd] at h
  cases hd : donor.get? l with
  | none =>
    rw [hd] at h
    exact .inl h
  | some t =>
    rw [hd, Option.elim_some] at h
    split at h
    · exact .inl h
    · exact .inr h

/-- Only a translation that repeats the untranslated text of its donor gets lost. -/
theorem isSome_get?_mergeText (hadd : flags.has .replace = false) (target donor : LocaleMap)
    (l : String) : ((mergeText flags target donor).get? l).isSome =
      ((target.get? l).isSome || ((donor.get? l).filter fun text =>
        !(flags.has .dedupe && repeatsUntranslated donor l text)).isSome) := by
  rw [get?_mergeText hadd]
  cases hd : donor.get? l with
  | none => simp
  | some text =>
    rw [Option.elim_some, Option.filter_some]
    by_cases hskip : (flags.has .dedupe && repeatsUntranslated donor l text) = true
    · simp [leavesOut, hskip]
    · have hleft : leavesOut flags donor target l text =
          (flags.keepsExisting && (target.get? l).isSome) := by
        simp [leavesOut, hskip, TextMap.contains]
      rw [hleft]
      cases target.get? l <;> cases flags.keepsExisting <;> simp [hskip]

theorem repeatsUntranslated_untranslated (donor : LocaleMap) (text : String) :
    repeatsUntranslated donor untranslated text = false := by
  simp [repeatsUntranslated]

/-- What repeats the untranslated text repeats it in every map that keeps that text. -/
theorem repeatsUntranslated_mono {m n : LocaleMap}
    (hkeeps : ∀ t, m.get? untranslated = some t → n.get? untranslated = some t)
    (h : repeatsUntranslated n l text = false) : repeatsUntranslated m l text = false := by
  have hiff (m : LocaleMap) : repeatsUntranslated m l text = true ↔
      l ≠ untranslated ∧ m.get? untranslated = some text := by
    simp [repeatsUntranslated]
  rw [Bool.eq_false_iff, Ne, hiff] at h ⊢
  exact fun hrepeats => h ⟨hrepeats.1, hkeeps text hrepeats.2⟩

/-- A localized text can be looked up in the result if it could be in the target or the donor. -/
theorem isSome_localized_mergeText (hadd : flags.has .replace = false) (target donor : LocaleMap)
    (locale : Option String) : ((mergeText flags target donor).localized locale).isSome =
      ((target.localized locale).isSome || (donor.localized locale).isSome) := by
  have huntranslated : ((mergeText flags target donor).get? untranslated).isSome =
      ((target.get? untranslated).isSome || (donor.get? untranslated).isSome) := by
    rw [isSome_get?_mergeText hadd]
    cases donor.get? untranslated <;> simp [repeatsUntranslated_untranslated]
  unfold LocaleMap.localized
  generalize locale.getD untranslated = l
  simp only [Option.isSome_or, isSome_get?_mergeText hadd target donor l, huntranslated]
  -- a translation is left out only where the donor has an untranslated text
  cases hd : donor.get? l with
  | none => cases (target.get? l).isSome <;> simp
  | some text =>
    cases hc : donor.get? untranslated with
    | none => simp [repeatsUntranslated, hc, Option.filter_some]
    | some other => simp

/-- The text of a locale where it does not just repeat the untranslated one. -/
def LocaleMap.genuine (m : LocaleMap) (l : String) : Option String :=
  (m.get? l).filter fun text => !repeatsUntranslated m l text

theorem get?_mergeText_of_dedupe (hadd : flags.has .replace = false)
    (hdedupe : flags.has .dedupe = true) (target donor : LocaleMap) (l : String) :
    (mergeText flags target donor).get? l = (target.get? l).or (donor.genuine l) := by
  rw [get?_mergeText hadd]
  unfold LocaleMap.genuine
  cases hd : donor.get? l with
  | none => simp
  | some text =>
    simp only [Option.elim_some, leavesOut, hdedupe, SubsumeFlags.keepsExisting, Bool.or_true,
      Bool.true_and, TextMap.contains, Option.filter_some]
    cases repeatsUntranslated donor l text <;> cases target.get? l <;> simp

theorem LocaleMap.genuine_untranslated (m : LocaleMap) :
    m.genuine untranslated = m.get? untranslated := by
  unfold genuine
  cases m.get? untranslated <;> simp [repeatsUntranslated_untranslated, Option.filter_some]

/-- A text that merging skips as a repetition is still found as the untranslated one. So it makes
no difference to a lookup whether the donor took over the texts of the target before. -/
theorem localized_absorb {back : SubsumeFlags} (hadd : flags.has .replace = false)
    (hdedupe : flags.has .dedupe = true) (hadd' : back.has .replace = false)
    (hdedupe' : back.has .dedupe = true) (target donor : LocaleMap) (locale : Option String) :
    (mergeText back target (mergeText flags donor target)).localized locale =
      (mergeText flags target donor).localized locale := by
  have hforth := get?_mergeText_of_dedupe hadd hdedupe
  have hback := get?_mergeText_of_dedupe hadd' hdedupe'
  have hdonor : (mergeText flags donor target).get? untranslated =
      (donor.get? untranslated).or (target.get? untranslated) := by
    rw [hforth, LocaleMap.genuine_untranslated]
  unfold LocaleMap.localized
  generalize locale.getD untranslated = l
  simp only [hforth target donor, hback, LocaleMap.genuine_untranslated, hdonor]
  cases ht : target.get? l with
  | some text => simp
  | none =>
    have hown : (mergeText flags donor target).get? l = donor.get? l := by
      rw [hforth, LocaleMap.genuine, ht]
      simp
    simp only [LocaleMap.genuine, repeatsUntranslated, hown, hdonor]
    cases hd : donor.get? l with
    | none => cases target.get? untranslated <;> cases donor.get? untranslated <;> simp
    | some text =>
      cases hc : donor.get? untranslated with
      | some other => cases target.get? untranslated <;> simp
      | none =>
        cases target.get? untranslated with
        | none => simp [Option.filter_some]
        | some other =>
          by_cases heq : other = text <;> by_cases hl : l = untranslated <;>
            simp [Option.filter_some, heq, hl]

theorem isSome_get?_mergeText_of_not_dedupe (hadd : flags.has .replace = false)
    (hdedupe : flags.has .dedupe = false) (target donor : TextMap String) (k : String) :
    ((mergeText flags target donor).get? k).isSome =
      ((target.get? k).isSome || (donor.get? k).isSome) := by
  rw [isSome_get?_mergeText hadd, hdedupe]
  simp

theorem get?_mergeText_of_overwrite (hadd : flags.has .replace = false)
    (hdedupe : flags.has .dedupe = false) (hover : flags.has .noOverwrite = false)
    (target donor : TextMap String) (k : String) :
    (mergeText flags target donor).get? k = (donor.get? k).or (target.get? k) := by
  rw [get?_mergeText hadd]
  cases donor.get? k <;> simp [leavesOut, SubsumeFlags.keepsExisting, hdedupe, hover]

theorem get?_mergeText_of_keep (hadd : flags.has .replace = false)
    (hdedupe : flags.has .dedupe = false) (hkeep : flags.has .noOverwrite = true)
    (target donor : TextMap String) (k : String) :
    (mergeText flags target donor).get? k = (target.get? k).or (donor.get? k) := by
  rw [get?_mergeText hadd]
  cases donor.get? k <;> cases ht : target.get? k <;>
    simp [leavesOut, SubsumeFlags.keepsExisting, hdedupe, hkeep, TextMap.contains, ht]

/-- Adds the keywords of one locale. -/
def mergeWords (m : TextMap (List String)) (e : String × List String) : TextMap (List String) :=
  m.modifyD e.1 [] fun words => e.2.foldl addNew words

theorem get?_mergeWords (m : TextMap (List String)) (e : String × List String) (l : String) :
    (mergeWords m e).get? l =
      if l = e.1 then some (e.2.foldl addNew (m.getD e.1 [])) else m.get? l :=
  TextMap.get?_modifyD ..

theorem get?_foldl_mergeWords (target donor : TextMap (List String)) (l : String) :
    (donor.entries.foldl mergeWords target).get? l = (donor.get? l).elim (target.get? l) fun words =>
      some (words.foldl addNew (target.getD l [])) := by
  have hother (m : TextMap (List String)) (e : String × List String) (k : String) (hk : k ≠ e.1) :
      (mergeWords m e).get? k = m.get? k := by
    rw [get?_mergeWords, if_neg hk]
  have hown (m n : TextMap (List String)) (e : String × List String)
      (h : m.get? e.1 = n.get? e.1) : (mergeWords m e).get? e.1 = (mergeWords n e).get? e.1 := by
    simp only [get?_mergeWords, TextMap.getD, h]
  rw [TextMap.get?_foldl_of_local hother hown donor.sorted]
  change (donor.get? l).elim _ _ = _
  cases donor.get? l <;> simp [get?_mergeWords]

theorem get?_mergeKeywords (hadd : flags.has .replace = false)
    (target donor : TextMap (List String)) (l : String) :
    (mergeKeywords flags target donor).get? l = (donor.get? l).elim (target.get? l) fun words =>
      some (words.foldl addNew (target.getD l [])) := by
  have hfold : mergeKeywords flags target donor = donor.entries.foldl mergeWords target := by
    unfold mergeKeywords TextMap.isEmpty
    cases donor.entries with
    | nil => rfl
    | cons e es =>
      simp only [List.isEmpty_cons, hadd, Bool.false_eq_true, if_false]
      rfl
  rw [hfold, get?_foldl_mergeWords]

/-- The keywords of each locale add up. -/
theorem mem_getD_mergeKeywords (hadd : flags.has .replace = false)
    (target donor : TextMap (List String)) (l word : String) :
    word ∈ (mergeKeywords flags target donor).getD l [] ↔
      word ∈ target.getD l [] ∨ word ∈ donor.getD l [] := by
  have hd : donor.getD l [] = (donor.get? l).getD [] := rfl
  rw [hd, TextMap.getD, get?_mergeKeywords hadd]
  cases donor.get? l with
  | none => simp [TextMap.getD]
  | some words => simp [mem_foldl_addNew]

theorem mergeKeywords_absorb {back : SubsumeFlags} (hadd : flags.has .replace = false)
    (hadd' : back.has .replace = false) (target donor : TextMap (List String)) :
    mergeKeywords back target (mergeKeywords flags donor target) =
      mergeKeywords flags target donor := by
  have hself (words : List String) : words.foldl addNew words = words :=
    foldl_addNew_of_subset fun _ h => h
  apply TextMap.ext_get?
  intro l
  simp only [get?_mergeKeywords hadd', get?_mergeKeywords hadd, TextMap.getD]
  cases ht : target.get? l with
  | none => cases donor.get? l <;> simp
  | some words =>
    cases donor.get? l with
    | none =>
      have honce := foldl_addNew_absorb words []
      simpa using honce
    | some others => simp [foldl_addNew_absorb]

end SoftwareCatalog
