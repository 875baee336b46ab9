import SoftwareCatalog.Component.Subsume

namespace SoftwareCatalog

variable {α : Type} {same : α → α → Bool} {as bs cs : List α} {e : α}

/-- No two entries are the same. -/
def Distinct (same : α → α → Bool) (as : List α) : Prop := as.Pairwise fun a b => same a b = false

instance : Decidable (Distinct same as) :=
  inferInstanceAs (Decidable (as.Pairwise fun a b => same a b = false))

theorem distinct_addUnlessSame (h : Distinct same as) (a : α) :
    Distinct same (addUnlessSame same as a) := by
  unfold addUnlessSame
  split
  · exact h
  · rename_i hnone
    refine List.pairwise_append.2 ⟨h, by simp, ?_⟩
    intro b hb c hc
    rw [List.mem_singleton.1 hc]
    exact Bool.eq_false_iff.2 fun hsame => hnone (List.any_eq_true.2 ⟨b, hb, hsame⟩)

theorem distinct_foldl (h : Distinct same as) (bs : List α) :
    Distinct same (bs.foldl (addUnlessSame same) as) := by
  induction bs generalizing as with
  | nil => exact h
  | cons b bs ih => exact ih (distinct_addUnlessSame h b)

/-- Adding one entry leaves those before it in place, and appends at most that one. -/
theorem addUnlessSame_cases (same : α → α → Bool) (as : List α) (a : α) :
    ((∃ b ∈ as, same b a = true) ∧ addUnlessSame same as a = as) ∨
      addUnlessSame same as a = as ++ [a] := by
  unfold addUnlessSame
  split
  · rename_i h
    exact .inl ⟨List.any_eq_true.1 h, rfl⟩
  · exact .inr rfl

/-- Adding entries one by one appends some of them. -/
theorem foldl_addUnlessSame_eq_append (same : α → α → Bool) (as bs : List α) :
    ∃ cs, bs.foldl (addUnlessSame same) as = as ++ cs ∧ ∀ e ∈ cs, e ∈ bs := by
  induction bs generalizing as with
  | nil => exact ⟨[], by simp, by simp⟩
  | cons b bs ih =>
    obtain ⟨cs, heq, hcs⟩ := ih (addUnlessSame same as b)
    rcases addUnlessSame_cases same as b with ⟨-, hadd⟩ | hadd
    · refine ⟨cs, ?_, fun e he => List.mem_cons_of_mem b (hcs e he)⟩
      rw [List.foldl_cons, heq, hadd]
    · refine ⟨b :: cs, ?_, ?_⟩
      · rw [List.foldl_cons, heq, hadd, List.append_assoc, List.singleton_append]
      · intro e he
        rcases List.mem_cons.1 he with rfl | he
        · exact List.mem_cons_self
        · exact List.mem_cons_of_mem b (hcs e he)

theorem mem_or_mem_of_mem_foldl (h : e ∈ bs.foldl (addUnlessSame same) as) : e ∈ as ∨ e ∈ bs := by
  obtain ⟨cs, heq, hcs⟩ := foldl_addUnlessSame_eq_append same as bs
  rw [heq] at h
  exact (List.mem_append.1 h).imp id (hcs e)

theorem mem_foldl_of_mem (h : e ∈ as) : e ∈ bs.foldl (addUnlessSame same) as := by
  obtain ⟨cs, heq, -⟩ := foldl_addUnlessSame_eq_append same as bs
  rw [heq]
  exact List.mem_append_left cs h

/-- Whatever was listed or comes in is the same as some entry afterwards. -/
theorem exists_same_foldl (hrefl : ∀ a, same a a = true) (h : e ∈ as ∨ e ∈ bs) :
    ∃ a ∈ bs.foldl (addUnlessSame same) as, same a e = true := by
  induction bs generalizing as with
  | nil =>
    rcases h with h | h
    · exact ⟨e, h, hrefl e⟩
    · cases h
  | cons b bs ih =>
    by_cases hb : e = b
    · obtain ⟨a, ha, hsame⟩ : ∃ a ∈ addUnlessSame same as b, same a e = true := by
        rw [hb]
        rcases addUnlessSame_cases same as b with ⟨⟨a, ha, hsame⟩, hadd⟩ | hadd
        · exact ⟨a, by rw [hadd]; exact ha, hsame⟩
        · exact ⟨b, by simp [hadd], hrefl b⟩
      refine ⟨a, ?_, hsame⟩
      rw [List.foldl_cons]
      exact mem_foldl_of_mem ha
    · apply ih
      rcases h with h | h
      · have hstep : e ∈ [b].foldl (addUnlessSame same) as := mem_foldl_of_mem h
        exact .inl hstep
      · exact .inr ((List.mem_cons.1 h).resolve_left hb)

/-- Nothing is added where an entry is the same as each that comes in. -/
theorem foldl_addUnlessSame_of_covered (h : ∀ e ∈ bs, ∃ a ∈ as, same a e = true) :
    bs.foldl (addUnlessSame same) as = as := by
  induction bs with
  | nil => rfl
  | cons b bs ih =>
    have hb : as.any (fun a => same a b) = true := List.any_eq_true.2 (h b List.mem_cons_self)
    have hadd : addUnlessSame same as b = as := by
      unfold addUnlessSame
      rw [if_pos hb]
    rw [List.foldl_cons, hadd]
    exact ih fun e he => h e (List.mem_cons_of_mem b he)

theorem foldl_addUnlessSame_of_subset (hrefl : ∀ a, same a a = true) (h : ∀ e ∈ bs, e ∈ as) :
    bs.foldl (addUnlessSame same) as = as :=
  foldl_addUnlessSame_of_covered fun e he => ⟨e, h e he, hrefl e⟩

/-- A list takes nothing else from another one that took over its own entries before. -/
theorem foldl_addUnlessSame_absorb (hrefl : ∀ a, same a a = true) (as bs : List α) :
    (as.foldl (addUnlessSame same) bs).foldl (addUnlessSame same) as =
      bs.foldl (addUnlessSame same) as := by
  obtain ⟨cs, heq, hcs⟩ := foldl_addUnlessSame_eq_append same bs as
  rw [heq, List.foldl_append]
  apply foldl_addUnlessSame_of_subset hrefl
  intro e he
  exact mem_foldl_of_mem (hcs e he)

/-- An entry that comes last comes to a list in the end, whichever list takes it in first. -/
theorem addUnlessSame_foldl (hrefl : ∀ a, same a a = true)
    (htrans : ∀ a b c, same a b = true → same b c = true → same a c = true) (as bs : List α)
    (c : α) : addUnlessSame same (bs.foldl (addUnlessSame same) as) c =
      (addUnlessSame same bs c).foldl (addUnlessSame same) as := by
  rcases addUnlessSame_cases same bs c with ⟨⟨b, hb, hbc⟩, heq⟩ | heq
  · obtain ⟨a, ha, hab⟩ : ∃ a ∈ bs.foldl (addUnlessSame same) as, same a b = true :=
      exists_same_foldl hrefl (.inr hb)
    have hcovered : ∀ e ∈ [c], ∃ a ∈ bs.foldl (addUnlessSame same) as, same a e = true := by
      intro e he
      rw [List.mem_singleton.1 he]
      exact ⟨a, ha, htrans a b c hab hbc⟩
    rw [heq]
    exact foldl_addUnlessSame_of_covered hcovered
  · rw [heq, List.foldl_append]
    rfl

/-- It makes no difference which of three lists come together first. -/
theorem foldl_addUnlessSame_assoc (hrefl : ∀ a, same a a = true)
    (htrans : ∀ a b c, same a b = true → same b c = true → same a c = true)
    (as bs cs : List α) : cs.foldl (addUnlessSame same) (bs.foldl (addUnlessSame same) as) =
      (cs.foldl (addUnlessSame same) bs).foldl (addUnlessSame same) as := by
  induction cs generalizing bs with
  | nil => rfl
  | cons c cs ih =>
    rw [List.foldl_cons, List.foldl_cons, addUnlessSame_foldl hrefl htrans]
    exact ih (addUnlessSame same bs c)

/-- All entries of a list without repetitions are appended where none of them was listed. -/
theorem foldl_addUnlessSame_of_distinct (h : Distinct same (as ++ bs)) :
    bs.foldl (addUnlessSame same) as = as ++ bs := by
  induction bs generalizing as with
  | nil => simp
  | cons b bs ih =>
    have hnew : as.any (fun a => same a b) = false := by
      rw [List.any_eq_false]
      intro a ha
      simp [(List.pairwise_append.1 h).2.2 a ha b List.mem_cons_self]
    have hadd : addUnlessSame same as b = as ++ [b] := by
      simp [addUnlessSame, hnew]
    rw [List.foldl_cons, hadd, ih (by simpa using h)]
    simp

section AddNew

variable [DecidableEq α] {a : α}

theorem addNew_of_mem (h : a ∈ as) : addNew as a = as := by
  simp [addNew, addUnlessSame, h]

theorem addNew_of_not_mem (h : a ∉ as) : addNew as a = as ++ [a] := by
  simp [addNew, addUnlessSame, h]

theorem mem_foldl_addNew : a ∈ bs.foldl addNew as ↔ a ∈ as ∨ a ∈ bs := by
  induction bs generalizing as with
  | nil => simp
  | cons b bs ih =>
    rw [List.foldl_cons, ih, mem_addNew, List.mem_cons]
    exact or_assoc

theorem nodup_foldl_addNew (h : as.Nodup) (bs : List α) : (bs.foldl addNew as).Nodup := by
  induction bs generalizing as with
  | nil => exact h
  | cons b bs ih => exact ih (nodup_addNew h b)

theorem foldl_addNew_of_subset (h : ∀ e ∈ bs, e ∈ as) : bs.foldl addNew as = as := by
  change bs.foldl (addUnlessSame fun b c => decide (b = c)) as = as
  exact foldl_addUnlessSame_of_subset (by simp) h

theorem foldl_addNew_absorb (as bs : List α) :
    (as.foldl addNew bs).foldl addNew as = bs.foldl addNew as := by
  change (as.foldl (addUnlessSame fun b c => decide (b = c)) bs).foldl
    (addUnlessSame fun b c => decide (b = c)) as = _
  exact foldl_addUnlessSame_absorb (by simp) as bs

theorem foldl_addNew_assoc (as bs cs : List α) :
    cs.foldl addNew (bs.foldl addNew as) = (cs.foldl addNew bs).foldl addNew as := by
  change cs.foldl (addUnlessSame fun b c => decide (b = c))
    (bs.foldl (addUnlessSame fun b c => decide (b = c)) as) = _
  refine foldl_addUnlessSame_assoc (by simp) ?_ as bs cs
  intro a b c hab hbc
  rw [of_decide_eq_true hab]
  exact hbc

theorem foldl_addNew_of_nodup (h : as.Nodup) : as.foldl addNew [] = as := by
  have hdistinct : Distinct (fun a b : α => decide (a = b)) ([] ++ as) :=
    h.imp fun hne => decide_eq_false hne
  exact foldl_addUnlessSame_of_distinct hdistinct

end AddNew

theorem mergeEntries_eq_foldl {β : Type} {add : List β → β → List β} {flags : SubsumeFlags}
    (hadd : flags.has .replace = false) (target donor : List β) :
    mergeEntries add flags target donor = donor.foldl add target := by
  unfold mergeEntries
  cases donor with
  | nil => rfl
  | cons d donor => simp [hadd]

/-- `cs` has one entry for each that `as` or `bs` has, and no other. -/
structure Gathers (same : α → α → Bool) (as bs cs : List α) : Prop where
  distinct : Distinct same cs
  sourced : ∀ e ∈ cs, e ∈ as ∨ e ∈ bs
  covered : ∀ e, e ∈ as ∨ e ∈ bs → ∃ c ∈ cs, same c e = true

theorem Gathers.symm (h : Gathers same as bs cs) : Gathers same bs as cs where
  distinct := h.distinct
  sourced e he := (h.sourced e he).symm
  covered e he := h.covered e he.symm

/-- What gathers `bs` and a list that gathers `as` and `bs` itself gathers these two. -/
theorem Gathers.trans (htrans : ∀ a b c, same a b = true → same b c = true → same a c = true)
    {ds : List α} (h : Gathers same as bs cs) (k : Gathers same bs cs ds) :
    Gathers same as bs ds where
  distinct := k.distinct
  sourced e he := by
    rcases k.sourced e he with hb | hc
    · exact .inr hb
    · exact h.sourced e hc
  covered e he := by
    obtain ⟨c, hc, hsame⟩ := h.covered e he
    obtain ⟨d, hd, hsame'⟩ := k.covered c (.inr hc)
    exact ⟨d, hd, htrans d c e hsame' hsame⟩

theorem gathers_foldl (hrefl : ∀ a, same a a = true) (h : Distinct same as) (bs : List α) :
    Gathers same as bs (bs.foldl (addUnlessSame same) as) where
  distinct := distinct_foldl h bs
  sourced _ he := mem_or_mem_of_mem_foldl he
  covered _ he := exists_same_foldl hrefl he

end SoftwareCatalog
