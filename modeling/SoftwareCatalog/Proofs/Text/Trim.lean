import SoftwareCatalog.Text.Blank

namespace SoftwareCatalog.Text

/-- Neither end of a text has a character with `p`. -/
structure Trimmed (p : Char → Bool) (cs : List Char) : Prop where
  head : ∀ c ∈ cs.head?, p c = false
  last : ∀ c ∈ cs.getLast?, p c = false

variable {p : Char → Bool} {c : Char} {cs : List Char}

theorem trimmed_of_forall (h : ∀ c ∈ cs, p c = false) : Trimmed p cs :=
  ⟨fun c hc => h c (List.mem_of_mem_head? hc), fun c hc => h c (List.mem_of_mem_getLast? hc)⟩

theorem dropWhile_of_head (h : ∀ c ∈ cs.head?, p c = false) : cs.dropWhile p = cs := by
  cases cs with
  | nil => rfl
  | cons c cs =>
    have hc := h c rfl
    simp [hc]

theorem trimEndList_of_last (h : ∀ c ∈ cs.getLast?, p c = false) : trimEndList p cs = cs := by
  unfold trimEndList
  rw [dropWhile_of_head (by simpa using h), List.reverse_reverse]

theorem Trimmed.trimList_eq (h : Trimmed p cs) : trimList p cs = cs := by
  unfold trimList
  rw [dropWhile_of_head h.head, trimEndList_of_last h.last]

theorem trimList_cons_of (h : p c = true) (cs : List Char) :
    trimList p (c :: cs) = trimList p cs := by
  unfold trimList
  rw [List.dropWhile_cons, if_pos h]

theorem trimEndList_concat_of (h : p c = true) (cs : List Char) :
    trimEndList p (cs ++ [c]) = trimEndList p cs := by
  simp [trimEndList, h]

theorem trimList_concat_of (h : p c = true) (cs : List Char) :
    trimList p (cs ++ [c]) = trimList p cs := by
  induction cs with
  | nil => simp [trimList, h]
  | cons d cs ih =>
    by_cases hd : p d = true
    · rw [List.cons_append, trimList_cons_of hd, trimList_cons_of hd, ih]
    · unfold trimList
      rw [List.cons_append, List.dropWhile_cons, if_neg hd, List.dropWhile_cons, if_neg hd,
        ← List.cons_append, trimEndList_concat_of h]

theorem all_dropWhile (p : Char → Bool) (cs : List Char) : (cs.dropWhile p).all p = cs.all p := by
  have hall := congrArg (List.all · p) (List.takeWhile_append_dropWhile (p := p) (l := cs))
  rwa [List.all_append, List.all_takeWhile, Bool.true_and] at hall

theorem all_trimEndList (p : Char → Bool) (cs : List Char) :
    (trimEndList p cs).all p = cs.all p := by
  unfold trimEndList
  rw [List.all_reverse, all_dropWhile, List.all_reverse]

theorem dropWhile_append_of_all (h : cs.all p = false) (more : List Char) :
    (cs ++ more).dropWhile p = cs.dropWhile p ++ more := by
  have hne : ¬cs.dropWhile p = [] := by
    intro hnil
    rw [← all_dropWhile, hnil] at h
    cases h
  rw [List.dropWhile_append, if_neg (by simpa using hne)]

theorem trimEndList_append_of_all (h : cs.all p = false) (before : List Char) :
    trimEndList p (before ++ cs) = before ++ trimEndList p cs := by
  have hreverse : cs.reverse.all p = false := List.all_reverse.trans h
  unfold trimEndList
  rw [List.reverse_append, dropWhile_append_of_all hreverse, List.reverse_append,
    List.reverse_reverse]

theorem trimList_append_after (p : Char → Bool) (cs : List Char) :
    trimList p cs ++ ((cs.dropWhile p).reverse.takeWhile p).reverse = cs.dropWhile p := by
  unfold trimList trimEndList
  rw [← List.reverse_append, List.takeWhile_append_dropWhile, List.reverse_reverse]

/-- What is trimmed off has `p`. -/
theorem exists_trimList (p : Char → Bool) (cs : List Char) :
    ∃ before after, cs = before ++ trimList p cs ++ after ∧ (∀ c ∈ before, p c = true) ∧
      (∀ c ∈ after, p c = true) := by
  refine ⟨cs.takeWhile p, ((cs.dropWhile p).reverse.takeWhile p).reverse, ?_, ?_, ?_⟩
  · rw [List.append_assoc, trimList_append_after, List.takeWhile_append_dropWhile]
  · exact fun c hc => List.all_eq_true.1 List.all_takeWhile c hc
  · exact fun c hc => List.all_eq_true.1 List.all_takeWhile c (List.mem_reverse.1 hc)

theorem mem_of_mem_trimList (h : c ∈ trimList p cs) : c ∈ cs := by
  obtain ⟨before, after, hcs, -, -⟩ := exists_trimList p cs
  rw [hcs]
  exact List.mem_append_left after (List.mem_append_right before h)

theorem trimmed_trimList (p : Char → Bool) (cs : List Char) : Trimmed p (trimList p cs) := by
  constructor
  · intro c hc
    have hhead : c ∈ (cs.dropWhile p).head? := by
      rw [← trimList_append_after, List.head?_append, hc]
      rfl
    have hstop := List.head?_dropWhile_not p cs
    rw [hhead] at hstop
    exact hstop
  · intro c hc
    unfold trimList trimEndList at hc
    rw [List.getLast?_reverse] at hc
    have hstop := List.head?_dropWhile_not p (cs.dropWhile p).reverse
    rw [hc] at hstop
    exact hstop

end SoftwareCatalog.Text
