import Mathlib.Data.List.Basic
import SoftwareCatalog.Text.Fields

namespace SoftwareCatalog.Text

/-- Lines one after the other, a line feed behind each. -/
def unlines (ls : List (List Char)) : List Char := ls.flatMap (· ++ ['\n'])

/-- A text consists of lines, where the last one may lack its line feed. -/
structure HasLines (t : String) (ls : List (List Char)) : Prop where
  single : ∀ l ∈ ls, '\n' ∉ l
  whole : t.toList = unlines ls ∨ t.toList ++ ['\n'] = unlines ls

variable {t : String} {ls : List (List Char)}

theorem splitOn_unlines (h : ∀ l ∈ ls, '\n' ∉ l) : (unlines ls).splitOn '\n' = ls ++ [[]] := by
  induction ls with
  | nil => rfl
  | cons l ls ih =>
    rw [List.forall_mem_cons] at h
    have hcons : unlines (l :: ls) = l ++ '\n' :: unlines ls := by simp [unlines]
    rw [hcons, List.splitOn_append_cons_self, List.splitOn_eq_singleton h.1, ih h.2]
    rfl

theorem hasLines_unlines (h : ∀ l ∈ ls, '\n' ∉ l) : HasLines (String.ofList (unlines ls)) ls :=
  ⟨h, .inl String.toList_ofList⟩

/-- A line that is read further is an empty one at the end. -/
theorem lines_cases (h : HasLines t ls) : lines t = ls ∨ ls = lines t ++ [[]] := by
  have hsplit := splitOn_unlines h.single
  unfold lines
  rcases h.whole with hwhole | hwhole
  · rw [hwhole, hsplit]
    simp
  · rw [← hwhole, List.splitOn_append_cons_self] at hsplit
    have hls : t.toList.splitOn '\n' = ls := List.append_cancel_right hsplit
    rw [hls]
    rcases List.eq_nil_or_concat ls with rfl | ⟨init, l, rfl⟩
    · simp
    · cases l <;> simp

end SoftwareCatalog.Text
