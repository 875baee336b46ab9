import SoftwareCatalog.Proofs.Search.Words

namespace SoftwareCatalog.Search

open Text

/-- The words of a text, as lists of characters. -/
def textWords (cs : List Char) : List (List Char) := wordsOf (lowerWords [] cs)

theorem textWords_nil : textWords [] = [] := rfl

theorem splitWords_eq_textWords (cs : List Char) :
    splitWords (String.ofList cs) = (textWords cs).map String.ofList :=
  splitWords_ofList cs

/-- A character that separates words, the casing of which does not reach across it either. -/
structure IsBoundary (c : Char) : Prop where
  separator : isSeparator c = true
  uncased : isCased c = false
  unignored : isCaseIgnorable c = false
  lower : lowerChar c = [c]

theorem isBoundary_of_isBlank {c : Char} (h : isBlank c = true) : IsBoundary c where
  separator := isSeparator_of_isBlank h
  uncased := (uncased_of_isBlank h).1
  unignored := (uncased_of_isBlank h).2
  lower := lowerChar_of_isBlank h

theorem isBoundary_close : IsBoundary '>' where
  separator := by decide
  uncased := by decide +kernel
  unignored := by decide +kernel
  lower := by decide +kernel

theorem IsBoundary.textWords_append {c : Char} (h : IsBoundary c) (a b : List Char) :
    textWords (a ++ c :: b) = textWords a ++ textWords b := by
  unfold textWords
  rw [lowerWords_append_uncased [] a h.uncased h.unignored h.lower,
    wordsOf_append_separator _ h.separator]

theorem IsBoundary.textWords_cons {c : Char} (h : IsBoundary c) (b : List Char) :
    textWords (c :: b) = textWords b :=
  h.textWords_append [] b

theorem IsBoundary.textWords_concat {c : Char} (h : IsBoundary c) (a : List Char) :
    textWords (a ++ [c]) = textWords a := by
  rw [h.textWords_append, textWords_nil, List.append_nil]

theorem textWords_of_blank {cs : List Char} (h : ∀ c ∈ cs, isBlank c = true) (b : List Char) :
    textWords (cs ++ b) = textWords b := by
  induction cs with
  | nil => rfl
  | cons c cs ih =>
    rw [List.cons_append, (isBoundary_of_isBlank (h c List.mem_cons_self)).textWords_cons]
    exact ih fun d hd => h d (List.mem_cons_of_mem c hd)

theorem textWords_append_of_blank (a : List Char) {cs : List Char}
    (h : ∀ c ∈ cs, isBlank c = true) : textWords (a ++ cs) = textWords a := by
  cases cs with
  | nil => rw [List.append_nil]
  | cons c cs =>
    have hrest := textWords_of_blank (fun d hd => h d (List.mem_cons_of_mem c hd)) []
    rw [List.append_nil] at hrest
    rw [(isBoundary_of_isBlank (h c List.mem_cons_self)).textWords_append, hrest, textWords_nil,
      List.append_nil]

/-- A text ends so that words do not reach from it into what follows. -/
def Closes (a : List Char) : Prop := ∀ b, textWords (a ++ b) = textWords a ++ textWords b

theorem closes_nil : Closes [] := fun _ => rfl

theorem IsBoundary.closes {c : Char} (h : IsBoundary c) (a : List Char) : Closes (a ++ [c]) := by
  intro b
  rw [List.append_assoc, List.singleton_append, h.textWords_append, h.textWords_concat]

theorem Closes.append {a b : List Char} (ha : Closes a) (hb : Closes b) : Closes (a ++ b) := by
  intro c
  rw [List.append_assoc, ha, hb, ha, List.append_assoc]

/-- The two forms of the small sigma as one: with them counted alike, a character adds its own
share to a text whatever stands around it. -/
def unfinal (c : Char) : Char := if c = 'ς' then 'σ' else c

theorem isSeparator_unfinal (c : Char) : isSeparator (unfinal c) = isSeparator c := by
  unfold unfinal
  split
  · rename_i h
    rw [h]
    decide
  · rfl

theorem unfinal_eq_hyphen {c : Char} : unfinal c = '-' ↔ c = '-' := by
  unfold unfinal
  split
  · rename_i h
    rw [h]
    decide
  · exact Iff.rfl

theorem isHyphen_unfinal (c : Char) : isHyphen (unfinal c) = isHyphen c := by
  rw [Bool.eq_iff_iff, isHyphen, isHyphen, beq_iff_eq, beq_iff_eq, unfinal_eq_hyphen]

theorem splitOnP_map {α β : Type} (p : β → Bool) (f : α → β) (xs : List α) :
    (xs.map f).splitOnP p = (xs.splitOnP (p ∘ f)).map (List.map f) := by
  induction xs with
  | nil => rfl
  | cons x xs ih =>
    rw [List.map_cons, List.splitOnP_cons_eq_if_modifyHead, List.splitOnP_cons_eq_if_modifyHead, ih]
    by_cases hx : p (f x) = true
    · simp [hx]
    · obtain ⟨first, rest, hsplit⟩ := List.exists_cons_of_ne_nil (List.splitOnP_ne_nil (p ∘ f) xs)
      simp [hx, hsplit]

theorem trimList_map (p : Char → Bool) (f : Char → Char) (cs : List Char) :
    trimList p (cs.map f) = (trimList (p ∘ f) cs).map f := by
  unfold trimList trimEndList
  rw [List.dropWhile_map, ← List.map_reverse, List.dropWhile_map, List.map_reverse]

theorem wordAndParts_map (word : List Char) :
    wordAndParts (word.map unfinal) = (wordAndParts word).map (List.map unfinal) := by
  have hhyphen : (word.map unfinal).contains '-' = word.contains '-' := by
    simp [unfinal_eq_hyphen]
  have hparts : (word.map unfinal).splitOn '-' = (word.splitOn '-').map (List.map unfinal) := by
    rw [List.splitOn_eq_splitOnP, List.splitOn_eq_splitOnP, splitOnP_map]
    exact congrArg (fun p => (word.splitOnP p).map (List.map unfinal)) (funext isHyphen_unfinal)
  unfold wordAndParts
  simp only [hhyphen, hparts, List.map_eq_nil_iff]
  split
  · rfl
  · split
    · have hfilter : (fun part : List Char => decide (part ≠ [])) ∘ List.map unfinal =
          fun part => decide (part ≠ []) := by
        funext part
        simp
      rw [List.map_cons, List.filter_map, hfilter]
    · rfl

theorem wordsOf_map (cs : List Char) :
    wordsOf (cs.map unfinal) = (wordsOf cs).map (List.map unfinal) := by
  have hseparator : isSeparator ∘ unfinal = isSeparator := funext isSeparator_unfinal
  have hhyphen : isHyphen ∘ unfinal = isHyphen := funext isHyphen_unfinal
  have hpiece (piece : List Char) : wordAndParts (trimList isHyphen (piece.map unfinal)) =
      (wordAndParts (trimList isHyphen piece)).map (List.map unfinal) := by
    rw [trimList_map, hhyphen, wordAndParts_map]
  unfold wordsOf
  rw [splitOnP_map, hseparator, List.flatMap_map, List.map_flatMap, List.flatMap_map,
    List.flatMap_map]
  exact congrArg (fun f => (cs.splitOnP isSeparator).flatMap f) (funext hpiece)

/-- A text in lowercase without final sigmas. -/
def folded (cs : List Char) : List Char := cs.flatMap fun c => (lowerChar c).map unfinal

theorem map_lowerWords (p cs : List Char) : (lowerWords p cs).map unfinal = folded cs := by
  induction cs generalizing p with
  | nil => rfl
  | cons c cs ih =>
    rw [lowerWords, List.map_append, ih]
    change _ = (lowerChar c).map unfinal ++ folded cs
    congr 1
    split
    · rename_i hsigma
      rw [hsigma]
      split <;> decide +kernel
    · rfl

theorem length_textWords (cs : List Char) :
    (textWords cs).length = (wordsOf (folded cs)).length := by
  rw [← map_lowerWords [] cs, wordsOf_map, List.length_map]
  rfl

end SoftwareCatalog.Search
