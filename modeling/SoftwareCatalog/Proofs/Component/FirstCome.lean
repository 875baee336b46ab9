import Mathlib.Data.List.Basic
import Mathlib.Data.List.Induction
import SoftwareCatalog.Proofs.Component.Collection

namespace SoftwareCatalog

section Firsts

variable {α : Type} {same : α → α → Bool}

/-- The entries that are the same as none before them. -/
def firsts (same : α → α → Bool) : List α → List α
  | [] => []
  | a :: as => a :: (firsts same as).filter fun b => !same a b

theorem firsts_concat (same : α → α → Bool) (as : List α) (a : α) :
    firsts same (as ++ [a]) = firsts same as ++ if as.any (same · a) then [] else [a] := by
  induction as with
  | nil => rfl
  | cons b as ih =>
    rw [List.cons_append, firsts, ih, List.filter_append, firsts, List.cons_append, List.any_cons]
    cases hb : same b a <;> cases hin : as.any (same · a) <;> simp [hb]

theorem distinct_firsts (same : α → α → Bool) (as : List α) : Distinct same (firsts same as) := by
  induction as with
  | nil => exact .nil
  | cons a as ih =>
    refine List.pairwise_cons.2 ⟨?_, ih.filter _⟩
    intro b hb
    simpa using (List.mem_filter.1 hb).2

theorem mem_of_mem_firsts {as : List α} {a : α} (h : a ∈ firsts same as) : a ∈ as := by
  induction as with
  | nil => exact h
  | cons b as ih =>
    rcases List.mem_cons.1 h with rfl | h
    · exact List.mem_cons_self
    · exact List.mem_cons_of_mem b (ih (List.mem_filter.1 h).1)

/-- What is the same as some entry is the same as one that came first. -/
theorem any_firsts (htrans : ∀ a b c, same a b = true → same b c = true → same a c = true)
    (as : List α) (c : α) : (firsts same as).any (same · c) = as.any (same · c) := by
  induction as with
  | nil => rfl
  | cons a as ih =>
    rw [firsts, List.any_cons, List.any_cons, ← ih, List.any_filter]
    cases hac : same a c with
    | true => rfl
    | false =>
      -- an entry that `a` keeps out would make `a` the same as `c`
      rw [Bool.false_or, Bool.false_or]
      refine congrArg (List.any _) (funext fun b => ?_)
      cases hab : same a b with
      | false => rfl
      | true =>
        cases hbc : same b c with
        | false => rfl
        | true =>
          rw [htrans a b c hab hbc] at hac
          cases hac

/-- Adding entries unless they are the same as listed ones keeps those that come first. -/
theorem foldl_addUnlessSame_eq_firsts
    (htrans : ∀ a b c, same a b = true → same b c = true → same a c = true) (as : List α) :
    as.foldl (addUnlessSame same) [] = firsts same as := by
  induction as using List.reverseRecOn with
  | nil => rfl
  | append_singleton as a ih =>
    rw [List.foldl_append, ih, firsts_concat, List.foldl_cons, List.foldl_nil, addUnlessSame,
      any_firsts htrans]
    split <;> simp

/-- Two of the entries are related, the earlier one to the later one. -/
def Repeats (related : α → α → Prop) (as : List α) : Prop :=
  ∃ a b, [a, b].Sublist as ∧ related a b

theorem not_repeats_iff {related : α → α → Prop} {as : List α} :
    ¬Repeats related as ↔ as.Pairwise fun a b => ¬related a b := by
  rw [List.pairwise_iff_forall_sublist]
  simp [Repeats]

theorem repeats_concat {related : α → α → Prop} {as : List α} {a : α} :
    Repeats related (as ++ [a]) ↔ Repeats related as ∨ ∃ b ∈ as, related b a := by
  rw [← not_iff_not, not_or, not_repeats_iff, not_repeats_iff, List.pairwise_append]
  simp

end Firsts

section Order

variable {α : Type} [DecidableEq α] {as : List α} {a b : α}

/-- Adding what is new one by one leaves out repetitions. -/
theorem foldl_addNew_eq_eraseDups (as : List α) :
    as.foldl addNew [] = as.eraseDups := by
  induction as using List.reverseRecOn with
  | nil => rfl
  | append_singleton as a ih =>
    rw [List.foldl_append, ih, List.eraseDups_append]
    by_cases ha : a ∈ as <;> simp [addNew, addUnlessSame, List.removeAll, List.eraseDups_cons, ha]

theorem idxOf_concat_self (h : a ∉ as) : (as ++ [a]).idxOf a = as.length := by
  rw [List.idxOf_append_of_notMem h]
  simp

theorem idxOf_foldl_addNew_lt_iff (ha : a ∈ as) (hb : b ∈ as) :
    (as.foldl addNew []).idxOf a < (as.foldl addNew []).idxOf b ↔ as.idxOf a < as.idxOf b := by
  induction as using List.reverseRecOn with
  | nil => cases ha
  | append_singleton as c ih =>
    have hmem (d : α) : d ∈ as.foldl addNew [] ↔ d ∈ as := by simp [mem_foldl_addNew]
    rw [List.foldl_append, List.foldl_cons, List.foldl_nil]
    by_cases hc : c ∈ as
    · have hin {d : α} (hd : d ∈ as ++ [c]) : d ∈ as := by
        rcases List.mem_append.1 hd with hd | hd
        · exact hd
        · exact List.mem_singleton.1 hd ▸ hc
      rw [addNew_of_mem ((hmem c).2 hc), List.idxOf_append_of_mem (hin ha),
        List.idxOf_append_of_mem (hin hb)]
      exact ih (hin ha) (hin hb)
    · -- the entry that comes last comes last in both lists
      have hc' : c ∉ as.foldl addNew [] := fun h => hc ((hmem c).1 h)
      have hbefore {ds : List α} {d : α} (hd : d ∈ ds) : (ds ++ [c]).idxOf d < ds.length := by
        rw [List.idxOf_append_of_mem hd]
        exact List.idxOf_lt_length_of_mem hd
      rw [addNew_of_not_mem hc']
      rw [List.mem_append, List.mem_singleton] at ha hb
      rcases ha with ha | rfl <;> rcases hb with hb | rfl
      · rw [List.idxOf_append_of_mem ((hmem a).2 ha), List.idxOf_append_of_mem ((hmem b).2 hb),
          List.idxOf_append_of_mem ha, List.idxOf_append_of_mem hb]
        exact ih ha hb
      · rw [idxOf_concat_self hc', idxOf_concat_self hc]
        exact iff_of_true (hbefore ((hmem a).2 ha)) (hbefore ha)
      · rw [idxOf_concat_self hc', idxOf_concat_self hc]
        exact iff_of_false (Nat.lt_asymm (hbefore ((hmem b).2 hb))) (Nat.lt_asymm (hbefore hb))
      · exact iff_of_false (Nat.lt_irrefl _) (Nat.lt_irrefl _)

theorem idxOf_filter_lt_iff {p : α → Bool} (ha : p a = true) (hb : p b = true) :
    (as.filter p).idxOf a < (as.filter p).idxOf b ↔ as.idxOf a < as.idxOf b := by
  induction as with
  | nil => rfl
  | cons c as ih =>
    by_cases hc : p c = true
    · rw [List.filter_cons_of_pos hc]
      by_cases hca : c = a
      · by_cases hcb : c = b
        · simp [← hca, ← hcb]
        · simp [hca, List.idxOf_cons_ne _ (hca ▸ hcb)]
      · rw [List.idxOf_cons_ne _ hca, List.idxOf_cons_ne _ hca]
        by_cases hcb : c = b
        · simp [hcb]
        · rw [List.idxOf_cons_ne _ hcb, List.idxOf_cons_ne _ hcb, Nat.succ_lt_succ_iff,
            Nat.succ_lt_succ_iff, ih]
    · have hca : c ≠ a := fun h => hc (h ▸ ha)
      have hcb : c ≠ b := fun h => hc (h ▸ hb)
      rw [List.filter_cons_of_neg hc, ih, List.idxOf_cons_ne _ hca, List.idxOf_cons_ne _ hcb]
      exact Nat.succ_lt_succ_iff.symm

/-- Of two neighbours the first comes first, unless the second came before. -/
theorem idxOf_lt_of_neighbours {before after : List α} (hne : a ≠ b) (hb : b ∉ before) :
    (before ++ a :: b :: after).idxOf a < (before ++ a :: b :: after).idxOf b := by
  rw [List.idxOf_append_of_notMem hb, List.idxOf_cons_ne _ hne, List.idxOf_cons_self]
  by_cases ha : a ∈ before
  · have hlt := List.idxOf_lt_length_of_mem ha
    rw [List.idxOf_append_of_mem ha]
    omega
  · rw [List.idxOf_append_of_notMem ha, List.idxOf_cons_self]
    omega

end Order

end SoftwareCatalog
