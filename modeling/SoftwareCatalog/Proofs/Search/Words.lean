import Mathlib.Data.List.Induction
import SoftwareCatalog.Proofs.Text.Fields
import SoftwareCatalog.Proofs.Text.Lowercase
import SoftwareCatalog.Proofs.Text.Trim
import SoftwareCatalog.Search.Words

namespace SoftwareCatalog

namespace Text

variable {α : Type} {p : α → Bool}

/-- What has no separators belongs to the last piece of what it is appended to. -/
theorem exists_last_piece (p : α → Bool) (xs : List α) :
    ∃ ls l, ∀ ys, (∀ y ∈ ys, p y = false) → (xs ++ ys).splitOnP p = ls ++ [l ++ ys] := by
  induction xs with
  | nil => exact ⟨[], [], fun ys hys => List.splitOnP_eq_singleton hys⟩
  | cons x xs ih =>
    obtain ⟨ls, l, hlast⟩ := ih
    by_cases hx : p x = true
    · refine ⟨[] :: ls, l, fun ys hys => ?_⟩
      rw [List.cons_append, List.splitOnP_cons_eq_if_modifyHead, if_pos hx, hlast ys hys]
      rfl
    · cases ls with
      | nil =>
        refine ⟨[], x :: l, fun ys hys => ?_⟩
        rw [List.cons_append, List.splitOnP_cons_eq_if_modifyHead, if_neg hx, hlast ys hys]
        rfl
      | cons first ls =>
        refine ⟨(x :: first) :: ls, l, fun ys hys => ?_⟩
        rw [List.cons_append, List.splitOnP_cons_eq_if_modifyHead, if_neg hx, hlast ys hys]
        rfl

/-- A list without separators, or one up to the first of them. -/
theorem split_first (p : α → Bool) (xs : List α) :
    (∀ x ∈ xs, p x = false) ∨
      ∃ front x rest, xs = front ++ x :: rest ∧ (∀ y ∈ front, p y = false) ∧ p x = true := by
  cases hfind : xs.find? p with
  | none => exact .inl fun x hx => by simpa using List.find?_eq_none.1 hfind x hx
  | some x =>
    obtain ⟨hx, front, rest, rfl, hfront⟩ := List.find?_eq_some_iff_append.1 hfind
    exact .inr ⟨front, x, rest, rfl, fun y hy => by simpa using hfront y hy, hx⟩

end Text

namespace Search

open Text

def isHyphen (c : Char) : Bool := c == '-'

def wordsOf (cs : List Char) : List (List Char) :=
  ((cs.splitOnP isSeparator).map (trimList isHyphen)).flatMap wordAndParts

theorem splitWords_eq (text : String) :
    splitWords text = (wordsOf (lowerWords [] text.toList)).map String.ofList := by
  unfold splitWords wordsOf lower
  rw [String.toList_ofList]
  rfl

theorem wordsOf_nil : wordsOf [] = [] := rfl

theorem wordsOf_append_separator (a : List Char) {c : Char} (h : isSeparator c = true)
    (b : List Char) : wordsOf (a ++ c :: b) = wordsOf a ++ wordsOf b := by
  unfold wordsOf
  rw [List.splitOnP_append_cons a b h, List.map_append, List.flatMap_append]

theorem isSeparator_of_punctuation {c : Char} (h : isPunctuation c = true) (hne : c ≠ '-') :
    isSeparator c = true := by
  simp [isSeparator, h, hne]

theorem isSeparator_of_isBlank {c : Char} (h : isBlank c = true) : isSeparator c = true := by
  simp [isSeparator, h]

theorem wordsOf_cons_punctuation {c : Char} (h : isPunctuation c = true) (cs : List Char) :
    wordsOf (c :: cs) = wordsOf cs := by
  by_cases hc : c = '-'
  · obtain rfl := hc
    have hkeeps : ¬ isSeparator '-' = true := by decide
    obtain ⟨first, rest, hsplit⟩ := List.exists_cons_of_ne_nil (List.splitOnP_ne_nil isSeparator cs)
    unfold wordsOf
    rw [List.splitOnP_cons_eq_if_modifyHead, if_neg hkeeps, hsplit, List.modifyHead_cons,
      List.map_cons, List.map_cons, trimList_cons_of rfl]
  · have hall := wordsOf_append_separator [] (isSeparator_of_punctuation h hc) cs
    rwa [wordsOf_nil, List.nil_append] at hall

theorem wordsOf_concat_punctuation {c : Char} (h : isPunctuation c = true) (cs : List Char) :
    wordsOf (cs ++ [c]) = wordsOf cs := by
  by_cases hc : c = '-'
  · obtain rfl := hc
    have hkeeps : ∀ y ∈ ['-'], isSeparator y = false := by
      intro y hy
      rw [List.mem_singleton.1 hy]
      decide
    obtain ⟨ls, l, hlast⟩ := exists_last_piece isSeparator cs
    have hnone := hlast [] fun y hy => absurd hy List.not_mem_nil
    rw [List.append_nil, List.append_nil] at hnone
    unfold wordsOf
    rw [hlast _ hkeeps, hnone, List.map_append, List.map_append, List.map_singleton,
      List.map_singleton, trimList_concat_of rfl]
  · rw [wordsOf_append_separator cs (isSeparator_of_punctuation h hc), wordsOf_nil, List.append_nil]

/-- Punctuation around a text adds no words. -/
theorem wordsOf_between {before after : List Char} (hbefore : ∀ c ∈ before, isPunctuation c = true)
    (hafter : ∀ c ∈ after, isPunctuation c = true) (cs : List Char) :
    wordsOf (before ++ cs ++ after) = wordsOf cs := by
  have hfront : wordsOf (before ++ cs) = wordsOf cs := by
    induction before with
    | nil => rfl
    | cons c before ih =>
      rw [List.cons_append, wordsOf_cons_punctuation (hbefore c List.mem_cons_self)]
      exact ih fun d hd => hbefore d (List.mem_cons_of_mem c hd)
  rw [← hfront]
  induction after using List.reverseRecOn with
  | nil => rw [List.append_nil]
  | append_singleton after c ih =>
    rw [← List.append_assoc, wordsOf_concat_punctuation (hafter c (by simp))]
    exact ih fun d hd => hafter d (List.mem_append_left [c] hd)

/-- A field of a text without the punctuation around it. -/
def core (raw : List Char) : List Char := trimList isPunctuation raw

theorem wordsOf_core (raw : List Char) :
    wordsOf (lowerWords [] raw) = wordsOf (lowerWords [] (core raw)) := by
  obtain ⟨before, after, hraw, hbefore, hafter⟩ := exists_trimList isPunctuation raw
  have hall : lowerWords [] raw = before ++ lowerWords [] (core raw) ++ after :=
    (congrArg (lowerWords []) hraw).trans (lowerWords_between hbefore hafter)
  rw [hall, wordsOf_between hbefore hafter]

theorem wordsOf_lowerWords (cs : List Char) : wordsOf (lowerWords [] cs) =
    (cs.splitOnP isBlank).flatMap fun raw => wordsOf (lowerWords [] (core raw)) := by
  rcases split_first isBlank cs with hnone | ⟨front, c, rest, heq, hfront, hc⟩
  · rw [List.splitOnP_eq_singleton hnone, List.flatMap_singleton, wordsOf_core]
  · have hshorter : rest.length < cs.length := by
      rw [heq, List.length_append, List.length_cons]
      omega
    have hrest := wordsOf_lowerWords rest
    rw [heq, lowerWords_append_blank [] front hc,
      wordsOf_append_separator _ (isSeparator_of_isBlank hc),
      List.splitOnP_append_cons_of_forall_mem hfront c hc, List.flatMap_cons, hrest, wordsOf_core]
termination_by cs.length

theorem splitWords_ofList (cs : List Char) :
    splitWords (String.ofList cs) = (wordsOf (lowerWords [] cs)).map String.ofList := by
  rw [splitWords_eq, String.toList_ofList]

/-- A text has the words of its fields. -/
theorem splitWords_eq_flatMap (text : String) : splitWords text =
    (blankFields text).flatMap fun raw => splitWords (String.ofList (core raw.toList)) := by
  have hnone : (wordsOf (lowerWords [] (core []))).map String.ofList = [] := by
    rw [core, trimList_nil, lowerWords, wordsOf_nil, List.map_nil]
  rw [splitWords_eq, wordsOf_lowerWords, List.map_flatMap]
  unfold blankFields
  rw [List.flatMap_map]
  generalize text.toList.splitOnP isBlank = raws
  induction raws with
  | nil => rw [List.flatMap_nil, List.filter_nil, List.flatMap_nil]
  | cons raw raws ih =>
    rw [List.flatMap_cons, ih]
    by_cases hraw : raw = []
    · rw [hraw, hnone, List.nil_append, List.filter_cons_of_neg (by simp)]
    · rw [List.filter_cons_of_pos (by simpa using hraw), List.flatMap_cons, splitWords_ofList,
        String.toList_ofList]

/-- What stands between separators, without hyphens around it. -/
structure IsWord (word : List Char) : Prop where
  nonempty : word ≠ []
  unseparated : ∀ c ∈ word, isSeparator c = false
  trimmed : Trimmed isHyphen word

theorem mem_wordAndParts {word part : List Char} : part ∈ wordAndParts word ↔
    word ≠ [] ∧ (part = word ∨ '-' ∈ word ∧ part ∈ word.splitOn '-' ∧ part ≠ []) := by
  unfold wordAndParts
  by_cases hword : word = []
  · simp [hword]
  · by_cases hhyphen : '-' ∈ word
    · simp [hword, hhyphen]
    · simp [hword, hhyphen]

theorem mem_of_mem_splitOn {word part : List Char} (h : part ∈ word.splitOn '-') :
    ∀ c ∈ part, c ∈ word ∧ isHyphen c = false :=
  mem_of_mem_splitOnP h

theorem mem_of_mem_wordAndParts {word part : List Char} (h : part ∈ wordAndParts word) {c : Char}
    (hc : c ∈ part) : c ∈ word := by
  obtain ⟨-, rfl | ⟨-, hpart, -⟩⟩ := mem_wordAndParts.1 h
  · exact hc
  · exact (mem_of_mem_splitOn hpart c hc).1

/-- The parts of a part are parts already. -/
theorem wordAndParts_trans {word part p : List Char} (h : part ∈ wordAndParts word)
    (hp : p ∈ wordAndParts part) : p ∈ wordAndParts word := by
  obtain ⟨-, rfl | ⟨-, hpart, -⟩⟩ := mem_wordAndParts.1 h
  · exact hp
  · obtain ⟨-, rfl | ⟨hhyphen, -, -⟩⟩ := mem_wordAndParts.1 hp
    · exact h
    · -- a part has no hyphens left
      have hnone := (mem_of_mem_splitOn hpart '-' hhyphen).2
      cases hnone

theorem mem_wordsOf {cs word : List Char} : word ∈ wordsOf cs ↔
    ∃ piece ∈ cs.splitOnP isSeparator, word ∈ wordAndParts (trimList isHyphen piece) := by
  simp [wordsOf]

theorem wordsOf_of_mem_wordAndParts {cs word part : List Char} (h : word ∈ wordsOf cs)
    (hpart : part ∈ wordAndParts word) : part ∈ wordsOf cs := by
  obtain ⟨piece, hpiece, hword⟩ := mem_wordsOf.1 h
  exact mem_wordsOf.2 ⟨piece, hpiece, wordAndParts_trans hword hpart⟩

theorem mem_of_mem_wordsOf {cs word : List Char} (h : word ∈ wordsOf cs) {c : Char}
    (hc : c ∈ word) : c ∈ cs ∧ isSeparator c = false := by
  obtain ⟨piece, hpiece, hword⟩ := mem_wordsOf.1 h
  exact mem_of_mem_splitOnP hpiece c (mem_of_mem_trimList (mem_of_mem_wordAndParts hword hc))

theorem isWord_of_mem_wordsOf {cs word : List Char} (h : word ∈ wordsOf cs) : IsWord word := by
  have hmem {c : Char} (hc : c ∈ word) := mem_of_mem_wordsOf h hc
  obtain ⟨piece, hpiece, hword⟩ := mem_wordsOf.1 h
  obtain ⟨hne, rfl | ⟨-, hpart, hpart_ne⟩⟩ := mem_wordAndParts.1 hword
  · exact ⟨hne, fun c hc => (hmem hc).2, trimmed_trimList isHyphen piece⟩
  · exact ⟨hpart_ne, fun c hc => (hmem hc).2,
      trimmed_of_forall fun c hc => (mem_of_mem_splitOn hpart c hc).2⟩

theorem IsWord.wordsOf_eq {word : List Char} (h : IsWord word) :
    wordsOf word = wordAndParts word := by
  unfold wordsOf
  rw [List.splitOnP_eq_singleton h.unseparated, List.map_singleton, h.trimmed.trimList_eq,
    List.flatMap_singleton]

theorem IsWord.core_eq {word : List Char} (h : IsWord word) : core word = word := by
  have hplain {c : Char} (hc : c ∈ word) (hedge : isHyphen c = false) : isPunctuation c = false := by
    have hkept := h.unseparated c hc
    simp only [isSeparator, isHyphen, Bool.or_eq_false_iff, Bool.and_eq_false_iff, ne_eq,
      decide_eq_false_iff_not, not_not, beq_eq_false_iff_ne] at hkept hedge
    exact hkept.2.resolve_right hedge
  apply Trimmed.trimList_eq
  constructor
  · exact fun c hc => hplain (List.mem_of_mem_head? hc) (h.trimmed.head c hc)
  · exact fun c hc => hplain (List.mem_of_mem_getLast? hc) (h.trimmed.last c hc)

/-- The words of a text are in lowercase. -/
theorem exists_word {text word : String} (h : word ∈ splitWords text) :
    ∃ w ∈ wordsOf (lowerWords [] text.toList), word = String.ofList w ∧ IsWord w ∧ Lowered w := by
  rw [splitWords_eq, List.mem_map] at h
  obtain ⟨w, hw, rfl⟩ := h
  refine ⟨w, hw, rfl, isWord_of_mem_wordsOf hw, ?_⟩
  exact fun c hc => lowered_lowerWords [] text.toList c (mem_of_mem_wordsOf hw hc).1

theorem splitWords_word {w : List Char} (hword : IsWord w) (hlowered : Lowered w) :
    splitWords (String.ofList w) = (wordAndParts w).map String.ofList := by
  rw [splitWords_ofList, hlowered.lowerWords_eq, hword.wordsOf_eq]

/-- What a word of a text is split into are words of that text. -/
theorem splitWords_trans {text word part : String} (h : word ∈ splitWords text)
    (hpart : part ∈ splitWords word) : part ∈ splitWords text := by
  obtain ⟨w, hw, rfl, hword, hlowered⟩ := exists_word h
  rw [splitWords_word hword hlowered, List.mem_map] at hpart
  obtain ⟨p, hp, rfl⟩ := hpart
  rw [splitWords_eq]
  exact List.mem_map_of_mem (wordsOf_of_mem_wordAndParts hw hp)

theorem mem_splitWords_self {text word : String} (h : word ∈ splitWords text) :
    word ∈ splitWords word := by
  obtain ⟨w, -, rfl, hword, hlowered⟩ := exists_word h
  rw [splitWords_word hword hlowered]
  exact List.mem_map_of_mem (mem_wordAndParts.2 ⟨hword.nonempty, .inl rfl⟩)

/-- Without white space a text is one field. -/
theorem blankFields_of_unblanked {text : String} (hne : text ≠ "")
    (h : ∀ c ∈ text.toList, isBlank c = false) : blankFields text = [text] := by
  have hlist : text.toList ≠ [] := fun hnil => hne (String.toList_eq_nil_iff.1 hnil)
  unfold blankFields
  rw [List.splitOnP_eq_singleton h, List.filter_cons_of_pos (by simpa using hlist),
    List.filter_nil, List.map_singleton, String.ofList_toList]

end Search

end SoftwareCatalog
