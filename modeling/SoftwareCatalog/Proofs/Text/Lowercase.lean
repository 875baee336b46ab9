import SoftwareCatalog.Text.Blank
import SoftwareCatalog.Text.Lowercase

namespace SoftwareCatalog.Text

/-- The code points of White_Space from first to last. -/
def blankSpans : List (Nat × Nat) := [(0x09, 0x0D), (0x20, 0x20), (0x85, 0x85), (0xA0, 0xA0),
  (0x1680, 0x1680), (0x2000, 0x200A), (0x2028, 0x2029), (0x202F, 0x202F), (0x205F, 0x205F),
  (0x3000, 0x3000)]

/-- The code points of punctuation from first to last. -/
def punctuationSpans : List (Nat × Nat) := [(0x21, 0x2F), (0x3A, 0x40), (0x5B, 0x60), (0x7B, 0x7E)]

namespace CaseRun

/-- The code points that the letters of a run are mapped to lie from `lowest` to `highest`. -/
def lowest (r : CaseRun) : Nat := (r.first + r.offset).toNat

def highest (r : CaseRun) : Nat := (r.last + r.offset).toNat

/-- No letter that `r` maps to is mapped by `q`: it lies in front of `q`, behind it or, where `q`
has every second code point, between two letters of `q`. -/
def misses (r q : CaseRun) : Bool :=
  Nat.blt r.highest q.first || Nat.blt q.last r.lowest ||
    (q.step == 2 && (r.step == 2 || r.first == r.last) && (r.lowest + q.first) % 2 == 1)

/-- The letters of a run lie outside ASCII and White_Space. What they are mapped to is a character
and, apart from the letter of the Kelvin sign, lies outside ASCII. -/
def sound (r : CaseRun) : Bool :=
  decide (0x80 ≤ r.first) &&
  blankSpans.all (fun s => decide (r.last < s.1) || decide (s.2 < r.first)) &&
  (decide (0x80 ≤ r.first + r.offset) || (r.first == r.last && r.first + r.offset == 0x6b)) &&
  (decide (r.last + r.offset < 0xd800) ||
    (decide (0xe000 ≤ r.first + r.offset) && decide (r.last + r.offset < 0x110000))) &&
  (decide (r.last + r.offset < 0x130) || decide (0x130 < r.first + r.offset))

variable {r q : CaseRun} {n : Nat}

theorem not_covers_of_misses (h : r.misses q = true) (hn : r.Covers n)
    (hpos : 0 ≤ r.first + r.offset) : ¬ q.Covers (n + r.offset).toNat := by
  obtain ⟨hfirst, hlast, hstep⟩ := hn
  simp only [misses, lowest, highest, Bool.or_eq_true, Bool.and_eq_true, Nat.blt_eq,
    beq_iff_eq] at h
  rintro ⟨hfirst', hlast', hstep'⟩
  rcases h with (h | h) | ⟨⟨hq, hr⟩, hodd⟩
  · omega
  · omega
  · rw [hq] at hstep'
    rcases hr with hr | hr
    · rw [hr] at hstep
      omega
    · omega

theorem all_sound : lowercaseRuns.all sound = true := by decide +kernel

theorem all_miss : (lowercaseRuns.all fun r => lowercaseRuns.all r.misses) = true := by
  decide +kernel

theorem target_cases (hr : r ∈ lowercaseRuns) (hn : r.Covers n) :
    ((n + r.offset).toNat = 0x6b ∨ 0x80 ≤ (n + r.offset).toNat) ∧
      (n + r.offset).toNat.isValidChar ∧ (n + r.offset).toNat ≠ 0x130 := by
  obtain ⟨hfirst, hlast, -⟩ := hn
  have hsound := List.all_eq_true.1 all_sound r hr
  simp only [sound, Bool.and_eq_true, Bool.or_eq_true, decide_eq_true_eq, beq_iff_eq] at hsound
  obtain ⟨⟨⟨⟨-, -⟩, hascii⟩, hvalid⟩, hdotted⟩ := hsound
  refine ⟨by omega, ?_, by omega⟩
  unfold Nat.isValidChar
  omega

theorem find?_target (hr : r ∈ lowercaseRuns) (hn : r.Covers n) :
    lowercaseRuns.find? (fun q => q.Covers (n + r.offset).toNat) = none := by
  have hsound := List.all_eq_true.1 all_sound r hr
  simp only [sound, Bool.and_eq_true, Bool.or_eq_true, decide_eq_true_eq, beq_iff_eq] at hsound
  obtain ⟨⟨⟨-, hascii⟩, -⟩, -⟩ := hsound
  rw [List.find?_eq_none]
  intro q hq
  rw [decide_eq_true_eq]
  have hmiss := List.all_eq_true.1 (List.all_eq_true.1 all_miss r hr) q hq
  exact not_covers_of_misses hmiss hn (by omega)

end CaseRun

theorem lowerChar_of_ascii {c : Char} (h : c.toNat < 0x80) : lowerChar c = [c.toLower] := by
  unfold lowerChar
  rw [if_pos h]

/-- The capitals of ASCII lie 0x20 in front of their letters in lowercase. -/
theorem toNat_toLower (c : Char) :
    c.toLower.toNat = if 0x41 ≤ c.toNat ∧ c.toNat ≤ 0x5A then c.toNat + 0x20 else c.toNat := by
  unfold Char.toLower
  split
  · rename_i h
    obtain ⟨hfirst, hlast⟩ := h
    rw [ge_iff_le, UInt32.le_iff_toNat_le] at hfirst
    rw [UInt32.le_iff_toNat_le] at hlast
    have hadd : (c.val + ('a'.val - 'A'.val)).toNat = c.toNat + 0x20 := by
      rw [UInt32.toNat_add]
      exact Nat.mod_eq_of_lt (Nat.lt_of_le_of_lt (Nat.add_le_add_right hlast _) (by decide))
    rw [if_pos ⟨hfirst, hlast⟩]
    exact hadd
  · rename_i h
    rw [ge_iff_le, UInt32.le_iff_toNat_le, UInt32.le_iff_toNat_le] at h
    exact (if_neg h).symm

theorem toLower_of_not_capital {c : Char} (h : c.toNat < 0x41 ∨ 0x5A < c.toNat) :
    c.toLower = c := by
  have hnat := toNat_toLower c
  rw [if_neg (by omega)] at hnat
  exact Char.toNat_inj.1 hnat

/-- The dotted capital I, the Kelvin sign and the capital sigma become letters that stay. -/
theorem lowerChar_letters : lowerChar 'i' = ['i'] ∧ lowerChar '\u0307' = ['\u0307'] ∧
    lowerChar 'k' = ['k'] ∧ lowerChar 'Σ' = ['σ'] ∧ lowerChar 'σ' = ['σ'] ∧
    lowerChar 'ς' = ['ς'] := by
  decide +kernel

/-- A letter in lowercase stays as it is. -/
theorem lowerChar_of_mem {c d : Char} (h : d ∈ lowerChar c) : lowerChar d = [d] := by
  unfold lowerChar at h
  split at h
  · rename_i hascii
    have hlower : c.toLower.toNat < 0x80 ∧ (c.toLower.toNat < 0x41 ∨ 0x5A < c.toLower.toNat) := by
      rw [toNat_toLower]
      split <;> omega
    rw [List.mem_singleton.1 h, lowerChar_of_ascii hlower.1, toLower_of_not_capital hlower.2]
  · split at h
    · obtain ⟨hi, hdot, -⟩ := lowerChar_letters
      rcases List.mem_cons.1 h with rfl | h
      · exact hi
      · rw [List.mem_singleton.1 h]
        exact hdot
    · split at h
      · rename_i r hfound
        have hcovers : r.Covers c.toNat := by simpa using List.find?_some hfound
        have hr := List.mem_of_find?_eq_some hfound
        obtain ⟨hascii, hvalid, hdotted⟩ := CaseRun.target_cases hr hcovers
        have hnat : (Char.ofNat (c.toNat + r.offset).toNat).toNat = (c.toNat + r.offset).toNat := by
          rw [Char.ofNat, dif_pos hvalid]
          rfl
        rw [List.mem_singleton.1 h]
        rcases hascii with hkelvin | hbeyond
        · obtain ⟨-, -, hk, -⟩ := lowerChar_letters
          rw [hkelvin]
          exact hk
        · unfold lowerChar
          rw [hnat, if_neg (by omega), if_neg hdotted, CaseRun.find?_target hr hcovers]
      · rename_i hbeyond hdotted _ hnone
        rw [List.mem_singleton.1 h]
        unfold lowerChar
        rw [if_neg hbeyond, if_neg hdotted, hnone]

theorem isBlank_iff {c : Char} :
    isBlank c = true ↔ ∃ s ∈ blankSpans, s.1 ≤ c.toNat ∧ c.toNat ≤ s.2 := by
  simp only [isBlank, blankSpans, Bool.or_eq_true, Bool.and_eq_true, decide_eq_true_eq, beq_iff_eq,
    List.mem_cons, List.not_mem_nil, or_false, exists_eq_or_imp, exists_eq_left]
  omega

theorem isPunctuation_iff {c : Char} :
    isPunctuation c = true ↔ ∃ s ∈ punctuationSpans, s.1 ≤ c.toNat ∧ c.toNat ≤ s.2 := by
  simp only [isPunctuation, punctuationSpans, Bool.or_eq_true, Bool.and_eq_true, decide_eq_true_eq,
    List.mem_cons, List.not_mem_nil, or_false, exists_eq_or_imp, exists_eq_left]
  omega

/-- A span of code points lies apart from all of the ranges. -/
def clearOf (rs : List (Nat × Nat)) (s : Nat × Nat) : Bool :=
  rs.all fun r => decide (s.2 < r.1) || decide (r.2 < s.1)

theorem not_inRanges_of_clearOf {rs : List (Nat × Nat)} {s : Nat × Nat} (h : clearOf rs s = true)
    {c : Char} (hfirst : s.1 ≤ c.toNat) (hlast : c.toNat ≤ s.2) : inRanges rs c = false := by
  unfold inRanges
  rw [List.any_eq_false]
  intro r hr
  have hclear := List.all_eq_true.1 h r hr
  simp only [Bool.or_eq_true, decide_eq_true_eq] at hclear
  simp only [Bool.and_eq_true, decide_eq_true_eq]
  omega

theorem spans_clear : (∀ s ∈ blankSpans ++ punctuationSpans, clearOf casedRanges s = true) ∧
    ∀ s ∈ blankSpans, clearOf caseIgnorableRanges s = true := by
  decide +kernel

/-- White space has no case, and ends the word that a capital sigma looks at. -/
theorem uncased_of_isBlank {c : Char} (h : isBlank c = true) :
    isCased c = false ∧ isCaseIgnorable c = false := by
  obtain ⟨s, hs, hfirst, hlast⟩ := isBlank_iff.1 h
  have hcased := spans_clear.1 s (List.mem_append_left _ hs)
  exact ⟨not_inRanges_of_clearOf hcased hfirst hlast,
    not_inRanges_of_clearOf (spans_clear.2 s hs) hfirst hlast⟩

theorem lowerChar_of_isPunctuation {c : Char} (h : isPunctuation c = true) :
    lowerChar c = [c] ∧ isCased c = false := by
  obtain ⟨s, hs, hfirst, hlast⟩ := isPunctuation_iff.1 h
  have hascii : ∀ s ∈ punctuationSpans, s.2 < 0x80 ∧ (s.2 < 0x41 ∨ 0x5A < s.1) := by decide
  obtain ⟨hless, hnocapital⟩ := hascii s hs
  have hcased := spans_clear.1 s (List.mem_append_right _ hs)
  refine ⟨?_, not_inRanges_of_clearOf hcased hfirst hlast⟩
  rw [lowerChar_of_ascii (by omega), toLower_of_not_capital (by omega)]

theorem lowerChar_of_isBlank {c : Char} (h : isBlank c = true) : lowerChar c = [c] := by
  obtain ⟨s, hs, hfirst, hlast⟩ := isBlank_iff.1 h
  by_cases hascii : c.toNat < 0x80
  · have hnocapital : ∀ s ∈ blankSpans, s.2 < 0x41 ∨ 0x5A < s.1 := by decide
    have hspan := hnocapital s hs
    rw [lowerChar_of_ascii hascii, toLower_of_not_capital (by omega)]
  · have hdotted : c.toNat ≠ 0x130 := by
      have hout : ∀ s ∈ blankSpans, s.2 < 0x130 ∨ 0x130 < s.1 := by decide
      have hspan := hout s hs
      omega
    have hnone : lowercaseRuns.find? (fun r => r.Covers c.toNat) = none := by
      rw [List.find?_eq_none]
      intro r hr
      have hsound := List.all_eq_true.1 CaseRun.all_sound r hr
      simp only [CaseRun.sound, Bool.and_eq_true] at hsound
      obtain ⟨⟨⟨⟨-, hblank⟩, -⟩, -⟩, -⟩ := hsound
      have hclear := List.all_eq_true.1 hblank s hs
      simp only [Bool.or_eq_true, decide_eq_true_eq] at hclear
      rw [decide_eq_true_eq]
      rintro ⟨hfrom, hto, -⟩
      omega
    unfold lowerChar
    rw [if_neg hascii, if_neg hdotted, hnone]

theorem cased_append {b : List Char} (h : cased b = false) (a : List Char) :
    cased (a ++ b) = cased a := by
  induction a with
  | nil => exact h
  | cons c a ih =>
    unfold cased at ih ⊢
    by_cases hc : isCaseIgnorable c = true <;> simp [hc, ih]

theorem cased_of_head {c : Char} {cs : List Char} (hcased : isCased c = false)
    (hignorable : isCaseIgnorable c = false) : cased (c :: cs) = false := by
  simp [cased, hcased, hignorable]

theorem cased_of_uncased {cs : List Char} (h : ∀ c ∈ cs, isCased c = false) : cased cs = false := by
  induction cs with
  | nil => rfl
  | cons c cs ih =>
    have hrest := ih fun d hd => h d (List.mem_cons_of_mem c hd)
    by_cases hc : isCaseIgnorable c = true
    · unfold cased at hrest ⊢
      simpa [hc] using hrest
    · exact cased_of_head (h c List.mem_cons_self) (Bool.eq_false_iff.2 hc)

/-- Of what stands in front it only matters whether that is cased. -/
theorem lowerWords_congr {p q : List Char} (h : cased p = cased q) (cs : List Char) :
    lowerWords p cs = lowerWords q cs := by
  induction cs generalizing p q with
  | nil => rfl
  | cons c cs ih =>
    have hnext : cased (c :: p) = cased (c :: q) := by
      unfold cased at h ⊢
      by_cases hc : isCaseIgnorable c = true <;> simp [hc, h]
    simp only [lowerWords, h, ih hnext]

theorem lowerWords_append (p a : List Char) {b : List Char} (h : cased b = false) :
    lowerWords p (a ++ b) = lowerWords p a ++ lowerWords (a.reverse ++ p) b := by
  induction a generalizing p with
  | nil => rfl
  | cons c a ih =>
    have hrest := ih (c :: p)
    simp only [List.cons_append, lowerWords, cased_append h, hrest, List.reverse_cons,
      List.append_assoc, List.nil_append]

/-- A character without case stays, and unless it is case-ignorable, words do not reach across
it. -/
theorem lowerWords_append_uncased (p a : List Char) {c : Char} (hcased : isCased c = false)
    (hignorable : isCaseIgnorable c = false) (hlower : lowerChar c = [c]) (b : List Char) :
    lowerWords p (a ++ c :: b) = lowerWords p a ++ c :: lowerWords [] b := by
  have hsigma : c ≠ 'Σ' := by
    rintro rfl
    revert hcased
    decide
  have hbefore : cased (c :: (a.reverse ++ p)) = cased [] := cased_of_head hcased hignorable
  rw [lowerWords_append p a (cased_of_head hcased hignorable), lowerWords, if_neg hsigma, hlower,
    lowerWords_congr hbefore]
  rfl

theorem lowerWords_append_blank (p a : List Char) {c : Char} (h : isBlank c = true)
    (b : List Char) : lowerWords p (a ++ c :: b) = lowerWords p a ++ c :: lowerWords [] b := by
  obtain ⟨hcased, hignorable⟩ := uncased_of_isBlank h
  exact lowerWords_append_uncased p a hcased hignorable (lowerChar_of_isBlank h) b

theorem lowerWords_punctuation_append {before : List Char}
    (h : ∀ c ∈ before, isPunctuation c = true) (p cs : List Char) :
    lowerWords p (before ++ cs) = before ++ lowerWords (before.reverse ++ p) cs := by
  induction before generalizing p with
  | nil => rfl
  | cons c before ih =>
    have hc := h c List.mem_cons_self
    have hrest := ih (fun d hd => h d (List.mem_cons_of_mem c hd)) (c :: p)
    have hsigma : c ≠ 'Σ' := by
      rintro rfl
      revert hc
      decide
    rw [List.cons_append, lowerWords, if_neg hsigma, (lowerChar_of_isPunctuation hc).1, hrest,
      List.reverse_cons, List.append_assoc]
    rfl

/-- Punctuation around a text does not matter for the text. -/
theorem lowerWords_between {before cs after : List Char}
    (hbefore : ∀ c ∈ before, isPunctuation c = true)
    (hafter : ∀ c ∈ after, isPunctuation c = true) :
    lowerWords [] (before ++ cs ++ after) = before ++ lowerWords [] cs ++ after := by
  have huncased {ds : List Char} (h : ∀ c ∈ ds, isPunctuation c = true) : cased ds = false :=
    cased_of_uncased fun c hc => (lowerChar_of_isPunctuation (h c hc)).2
  have hfront : cased (before.reverse ++ []) = cased [] := by
    rw [List.append_nil]
    exact huncased (by simpa using hbefore)
  have hback (p : List Char) : lowerWords p after = after := by
    have hall := lowerWords_punctuation_append hafter p []
    rw [List.append_nil] at hall
    exact hall.trans (List.append_nil after)
  rw [lowerWords_append [] _ (huncased hafter), hback, lowerWords_punctuation_append hbefore,
    lowerWords_congr hfront]

/-- All characters of a text in lowercase stay as they are. -/
def Lowered (cs : List Char) : Prop := ∀ c ∈ cs, lowerChar c = [c]

theorem lowered_lowerWords (p cs : List Char) : Lowered (lowerWords p cs) := by
  induction cs generalizing p with
  | nil => exact fun d hd => absurd hd List.not_mem_nil
  | cons c cs ih =>
    intro d hd
    rcases List.mem_append.1 hd with hd | hd
    · split at hd
      · obtain ⟨-, -, -, -, hmedial, hfinal⟩ := lowerChar_letters
        rw [List.mem_singleton.1 hd]
        split
        · exact hfinal
        · exact hmedial
      · exact lowerChar_of_mem hd
    · exact ih (c :: p) d hd

theorem Lowered.lowerWords_eq {cs : List Char} (h : Lowered cs) (p : List Char) :
    lowerWords p cs = cs := by
  induction cs generalizing p with
  | nil => rfl
  | cons c cs ih =>
    have hc := h c List.mem_cons_self
    have hrest := ih (fun d hd => h d (List.mem_cons_of_mem c hd)) (c :: p)
    have hsigma : c ≠ 'Σ' := by
      rintro rfl
      obtain ⟨-, -, -, hcapital, -⟩ := lowerChar_letters
      rw [hcapital] at hc
      exact absurd hc (by decide)
    rw [lowerWords, if_neg hsigma, hc, hrest]
    rfl

end SoftwareCatalog.Text
