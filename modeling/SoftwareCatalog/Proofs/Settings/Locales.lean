import SoftwareCatalog.Settings.Locales
import SoftwareCatalog.Proofs.Component.FirstCome
import SoftwareCatalog.Proofs.Text.Fields

namespace SoftwareCatalog

namespace Locales

/-- What a name says before its codeset and its modifier. -/
def IsBase (name b : String) : Prop :=
  (∀ c ∈ b.toList, c ≠ '.' ∧ c ≠ '@') ∧
    ∃ rest, name.toList = b.toList ++ rest ∧ ∀ c ∈ rest.head?, c = '.' ∨ c = '@'

/-- What a base says before its territory. -/
def IsLanguage (b l : String) : Prop :=
  '_' ∉ l.toList ∧ ∃ territory, b.toList = l.toList ++ '_' :: territory

/-- The names that come up one after the other: of each name its base, and behind a base with a
territory its language. -/
inductive Generates : List String → List String → Prop
  | nil : Generates [] []
  | bare {name b : String} {names gs : List String} (hbase : IsBase name b)
    (hbare : '_' ∉ b.toList) (h : Generates names gs) : Generates (name :: names) (b :: gs)
  | territory {name b l : String} {names gs : List String} (hbase : IsBase name b)
    (hlanguage : IsLanguage b l) (h : Generates names gs) :
    Generates (name :: names) (b :: l :: gs)

/-- A name asks for its base and for the language of its base. -/
def AsksFor (name l : String) : Prop := ∃ b, IsBase name b ∧ (l = b ∨ IsLanguage b l)

/-- The locales to try for some names, the preferred ones first. -/
structure Fallbacks (names generated locales : List String) : Prop where
  nodup : locales.Nodup
  last : locales.getLast? = some "C"
  mem_iff : ∀ l, l ∈ locales ↔
    l = "C" ∨ (∃ name ∈ names, AsksFor name l) ∧ l ≠ "" ∧ l ≠ "C" ∧ l ≠ "POSIX"
  /-- Before the last one they stand in the order in which they come up. -/
  order : ∀ a ∈ locales, ∀ b ∈ locales, a ≠ "C" → b ≠ "C" →
    (locales.idxOf a < locales.idxOf b ↔ generated.idxOf a < generated.idxOf b)
  /-- A base stands before its language, unless an earlier name asks for that. -/
  base_first : ∀ before name after b l, names = before ++ name :: after → IsBase name b →
    IsLanguage b l → l ∈ locales → (∀ n ∈ before, ¬AsksFor n l) →
    locales.idxOf b < locales.idxOf l

variable {name b l : String} {names gs : List String}

theorem isBase_iff : IsBase name b ↔ b = base name := by
  have hmark (c : Char) : (decide (c ≠ '.') && decide (c ≠ '@')) = true ↔ c ≠ '.' ∧ c ≠ '@' := by
    simp
  constructor
  · rintro ⟨hplain, rest, hname, hrest⟩
    have htake : name.toList.takeWhile (fun c => c ≠ '.' && c ≠ '@') = b.toList := by
      rw [hname, List.takeWhile_append_of_pos fun c hc => (hmark c).2 (hplain c hc)]
      cases rest with
      | nil => simp
      | cons c rest =>
        rcases hrest c rfl with rfl | rfl <;> simp
    rw [base, htake, String.ofList_toList]
  · rintro rfl
    refine ⟨?_, name.toList.dropWhile (fun c => c ≠ '.' && c ≠ '@'), ?_, ?_⟩
    · intro c hc
      rw [base, String.toList_ofList] at hc
      exact (hmark c).1 (List.all_eq_true.1 List.all_takeWhile c hc)
    · rw [base, String.toList_ofList, List.takeWhile_append_dropWhile]
    · intro c hc
      have hstop := List.head?_dropWhile_not (fun c => c ≠ '.' && c ≠ '@') name.toList
      rw [hc] at hstop
      simpa [or_iff_not_imp_left] using hstop

theorem isLanguage_iff : IsLanguage b l ↔ language? b = some l := by
  unfold language? Text.cut?
  constructor
  · rintro ⟨hplain, territory, hb⟩
    rw [hb, Text.breakAt_append hplain]
    simp
  · intro h
    simp only [Option.map_map, Option.map_eq_some_iff, Function.comp_apply] at h
    obtain ⟨⟨before, territory⟩, hbreak, rfl⟩ := h
    obtain ⟨hb, hplain⟩ := Text.eq_of_breakAt hbreak
    exact ⟨by simpa using hplain, territory, by simpa using hb⟩

theorem base_base (name : String) : base (base name) = base name := by
  obtain ⟨hplain, -⟩ := isBase_iff.2 (rfl : base name = base name)
  exact (isBase_iff.1 ⟨hplain, [], by simp, by simp⟩).symm

theorem isListed_iff : isListed l = true ↔ l ≠ "" ∧ l ≠ "C" ∧ l ≠ "POSIX" := by
  simp only [isListed, Bool.and_eq_true, decide_eq_true_eq, and_assoc]
  rfl

/-- A base with a territory is none of the names that are left out. -/
theorem isListed_of_isLanguage (h : IsLanguage b l) : isListed b = true := by
  obtain ⟨-, territory, hb⟩ := h
  have hmark : '_' ∈ b.toList := by simp [hb]
  rw [isListed_iff]
  refine ⟨?_, ?_, ?_⟩ <;> rintro rfl <;> revert hmark <;> decide

theorem ne_of_isLanguage (h : IsLanguage b l) : b ≠ l := by
  obtain ⟨hplain, territory, hb⟩ := h
  rintro rfl
  exact hplain (hb ▸ by simp)

/-- The base of a name and its language, whether they are listed or not. -/
def offered (name : String) : List String := base name :: (language? (base name)).toList

theorem mem_offered : l ∈ offered name ↔ AsksFor name l := by
  have hlanguage : l ∈ (language? (base name)).toList ↔ IsLanguage (base name) l := by
    rw [Option.mem_toList, isLanguage_iff]
  rw [offered, List.mem_cons, hlanguage]
  constructor
  · intro h
    exact ⟨base name, isBase_iff.2 rfl, h⟩
  · rintro ⟨b, hb, h⟩
    exact isBase_iff.1 hb ▸ h

theorem offered_of_isLanguage (hbase : IsBase name b) (h : IsLanguage b l) :
    offered name = [b, l] := by
  rw [offered, ← isBase_iff.1 hbase, isLanguage_iff.1 h]
  rfl

theorem generates (names : List String) : Generates names (names.flatMap offered) := by
  induction names with
  | nil => exact .nil
  | cons name names ih =>
    have hbase : IsBase name (base name) := isBase_iff.2 rfl
    rw [List.flatMap_cons]
    cases hl : language? (base name) with
    | none =>
      have hbare : '_' ∉ (base name).toList := by
        rw [← Text.breakAt_eq_none]
        simpa [language?, Text.cut?] using hl
      rw [offered, hl]
      exact .bare hbase hbare ih
    | some l =>
      rw [offered_of_isLanguage hbase (isLanguage_iff.2 hl)]
      exact .territory hbase (isLanguage_iff.2 hl) ih

theorem ofNames_eq (names : List String) :
    ofNames names = ((names.flatMap offered).filter isListed).foldl addNew [] ++ ["C"] := by
  rw [List.filter_flatMap]
  rfl

theorem mem_listed : l ∈ ((names.flatMap offered).filter isListed).foldl addNew [] ↔
    (∃ name ∈ names, AsksFor name l) ∧ isListed l = true := by
  rw [mem_foldl_addNew, List.mem_filter, List.mem_flatMap]
  simp [mem_offered]

theorem fallbacks_ofNames (names : List String) :
    Fallbacks names (names.flatMap offered) (ofNames names) := by
  have hfold (a : String) (hin : a ∈ ofNames names) (hne : a ≠ "C") :
      a ∈ ((names.flatMap offered).filter isListed).foldl addNew [] := by
    rw [ofNames_eq, List.mem_append, List.mem_singleton] at hin
    exact hin.resolve_right hne
  have hlast : "C" ∉ ((names.flatMap offered).filter isListed).foldl addNew [] := by
    intro hin
    exact (isListed_iff.1 (mem_listed.1 hin).2).2.1 rfl
  have horder (a : String) (ha : a ∈ ofNames names) (b : String) (hb : b ∈ ofNames names)
      (hac : a ≠ "C") (hbc : b ≠ "C") : (ofNames names).idxOf a < (ofNames names).idxOf b ↔
        (names.flatMap offered).idxOf a < (names.flatMap offered).idxOf b := by
    have ha' := hfold a ha hac
    have hb' := hfold b hb hbc
    rw [ofNames_eq, List.idxOf_append_of_mem ha', List.idxOf_append_of_mem hb',
      idxOf_foldl_addNew_lt_iff (by simpa [mem_foldl_addNew] using ha')
        (by simpa [mem_foldl_addNew] using hb'),
      idxOf_filter_lt_iff (mem_listed.1 ha').2 (mem_listed.1 hb').2]
  constructor
  · rw [ofNames_eq]
    refine List.nodup_append.2 ⟨nodup_foldl_addNew .nil _, by simp, ?_⟩
    intro a ha c hc heq
    exact hlast (List.mem_singleton.1 hc ▸ heq ▸ ha)
  · simp [ofNames_eq]
  · intro l
    rw [ofNames_eq, List.mem_append, mem_listed, List.mem_singleton, isListed_iff]
    exact or_comm
  · exact horder
  · intro before name after b l hnames hbase hlanguage hl hbefore
    have hb : b ∈ ((names.flatMap offered).filter isListed).foldl addNew [] :=
      mem_listed.2 ⟨⟨name, by simp [hnames], b, hbase, .inl rfl⟩, isListed_of_isLanguage hlanguage⟩
    have hbc : b ≠ "C" := (isListed_iff.1 (isListed_of_isLanguage hlanguage)).2.1
    have hb' : b ∈ ofNames names := by
      rw [ofNames_eq]
      exact List.mem_append_left _ hb
    by_cases hlc : l = "C"
    · rw [hlc, ofNames_eq, List.idxOf_append_of_mem hb, idxOf_concat_self hlast]
      exact List.idxOf_lt_length_of_mem hb
    · have hearlier : l ∉ before.flatMap offered := by
        intro hin
        obtain ⟨n, hn, hin⟩ := List.mem_flatMap.1 hin
        exact hbefore n hn (mem_offered.1 hin)
      rw [horder b hb' l hl hbc hlc, hnames, List.flatMap_append, List.flatMap_cons,
        offered_of_isLanguage hbase hlanguage]
      exact idxOf_lt_of_neighbours (ne_of_isLanguage hlanguage) hearlier

/-- A list of locales each of which asks for nothing that is not listed as it would be by itself. -/
def Settled (locales : List String) : Prop :=
  (locales.flatMap requested).foldl addNew [] = locales

variable {locales : List String} {x y : String}

theorem Settled.single (h : Settled locales) (hx : requested x = [x]) :
    Settled (addNew locales x) := by
  by_cases hin : x ∈ locales
  · rwa [addNew_of_mem hin]
  · unfold Settled
    rw [addNew_of_not_mem hin, List.flatMap_append, List.foldl_append, h]
    simp [hx, addNew_of_not_mem hin]

theorem Settled.pair (h : Settled locales) (hx : requested x = [x, y]) (hy : requested y = [y]) :
    Settled (addNew (addNew locales x) y) := by
  by_cases hin : x ∈ locales
  · rw [addNew_of_mem hin]
    exact h.single hy
  · -- behind its base a language is asked for by both of them
    unfold Settled
    rw [addNew_of_not_mem hin]
    by_cases hy' : y ∈ locales ++ [x]
    · rw [addNew_of_mem hy', List.flatMap_append, List.foldl_append, h]
      simp [hx, addNew_of_not_mem hin, addNew_of_mem hy']
    · have hlast : y ∈ locales ++ [x] ++ [y] := by simp
      rw [addNew_of_not_mem hy', List.flatMap_append, List.flatMap_append, List.foldl_append,
        List.foldl_append, h]
      simp only [List.flatMap_singleton, hx, hy, List.foldl_cons, List.foldl_nil,
        addNew_of_not_mem hin, addNew_of_not_mem hy', addNew_of_mem hlast]

theorem requested_of_isLanguage (h : IsLanguage (base name) l) (hl : isListed l = true) :
    requested l = [l] := by
  obtain ⟨hplain, territory, hbase⟩ := h
  have hl' : base l = l := by
    refine (isBase_iff.1 ⟨?_, [], by simp, by simp⟩).symm
    intro c hc
    exact (isBase_iff.2 (rfl : base name = base name)).1 c (by simp [hbase, hc])
  have hbare : language? l = none := by
    rw [language?, Text.cut?, Text.breakAt_eq_none.2 hplain]
    rfl
  simp [requested, hl', hbare, hl]

theorem Settled.extended (h : Settled locales) (name : String) :
    Settled ((requested name).foldl addNew locales) := by
  have hself : requested (base name) = requested name := by
    rw [requested, base_base, requested]
  cases hl : language? (base name) with
  | none =>
    have hone : requested name = if isListed (base name) then [base name] else [] := by
      rw [requested, hl]
      by_cases hb : isListed (base name) <;> simp [hb]
    by_cases hb : isListed (base name) = true
    · rw [if_pos hb] at hone
      rw [hone]
      exact h.single (hself.trans hone)
    · rw [hone, if_neg hb]
      exact h
  | some l =>
    have hlanguage := isLanguage_iff.2 hl
    have hb := isListed_of_isLanguage hlanguage
    by_cases hlisted : isListed l = true
    · have hpair : requested name = [base name, l] := by
        simp [requested, hl, hb, hlisted]
      rw [hpair]
      exact h.pair (hself.trans hpair) (requested_of_isLanguage hlanguage hlisted)
    · have hone : requested name = [base name] := by
        simp [requested, hl, hb, hlisted]
      rw [hone]
      exact h.single (hself.trans hone)

theorem settled_requested (names : List String) :
    Settled ((names.flatMap requested).foldl addNew []) := by
  induction names using List.reverseRecOn with
  | nil => rfl
  | append_singleton names name ih =>
    rw [List.flatMap_append, List.foldl_append, List.flatMap_singleton]
    exact ih.extended name

/-- The names of a user come out as an ordered list of fallbacks, and such a list as itself. -/
theorem ofNames_closure (names : List String) :
    (∃ generated, Generates names generated ∧ Fallbacks names generated (ofNames names)) ∧
      ofNames (ofNames names) = ofNames names := by
  refine ⟨⟨_, generates names, fallbacks_ofNames names⟩, ?_⟩
  have hlast : requested untranslated = [] := by decide +kernel
  have hsettled := settled_requested names
  unfold Settled at hsettled
  rw [ofNames, ofNames, List.flatMap_append, List.flatMap_singleton, hlast, List.append_nil,
    hsettled]

example : ofNames ["en_GB.UTF-8", "C", "en_US@euro"] = ["en_GB", "en", "en_US", "C"] := by
  decide +kernel

end Locales

end SoftwareCatalog
