import SoftwareCatalog.Text.Fields

namespace SoftwareCatalog.Text

theorem endsWith_iff {s ending : String} : endsWith s ending = true ↔ ending.toList <:+ s.toList :=
  List.isSuffixOf_iff_suffix

theorem breakAt_append {sep : Char} {a : List Char} (h : sep ∉ a) (b : List Char) :
    breakAt sep (a ++ sep :: b) = some (a, b) := by
  induction a with
  | nil => simp [breakAt]
  | cons c a ih =>
    rw [List.mem_cons, not_or] at h
    simp [breakAt, Ne.symm h.1, ih h.2]

/-- The last piece is the text behind the last separator, where there is one. -/
theorem exists_last_field (sep : Char) (cs : List Char) :
    ∃ last, sep ∉ last ∧ (cs.splitOn sep).getLast? = some last ∧
      (last = cs ∨ sep :: last <:+ cs) := by
  induction cs with
  | nil => exact ⟨[], by simp, by simp, .inl rfl⟩
  | cons c cs ih =>
    obtain ⟨last, hsep, hlast, hwhole⟩ := ih
    by_cases hc : sep ∈ c :: cs
    · refine ⟨last, hsep, ?_, .inr ?_⟩
      · rcases hwhole with rfl | ⟨before, rfl⟩
        · -- the first character is the only separator
          have heq : sep = c := by simpa [hsep] using hc
          rw [← heq, ← List.nil_append (sep :: last), List.splitOn_append_cons_self,
            List.getLast?_append, hlast]
          rfl
        · rw [← List.cons_append, List.splitOn_append_cons_self, List.getLast?_append,
            List.splitOn_eq_singleton hsep]
          rfl
      · rcases hwhole with rfl | hbehind
        · have heq : sep = c := by simpa [hsep] using hc
          exact heq ▸ List.suffix_rfl
        · exact hbehind.trans (List.suffix_cons c cs)
    · refine ⟨c :: cs, hc, ?_, .inl rfl⟩
      rw [List.splitOn_eq_singleton hc]
      rfl

/-- An ending without separators is one of the last piece. -/
theorem last_field_endsWith {sep : Char} {s ending : String} (h : endsWith s ending = true)
    (hsep : sep ∉ ending.toList) :
    ∃ last, (fields sep s).getLast? = some last ∧ endsWith last ending = true := by
  obtain ⟨last, -, hlast, hwhole⟩ := exists_last_field sep s.toList
  refine ⟨String.ofList last, ?_, ?_⟩
  · simp [fields, hlast]
  · rw [endsWith_iff] at h ⊢
    rw [String.toList_ofList]
    rcases hwhole with rfl | hbehind
    · exact h
    · rcases List.suffix_or_suffix_of_suffix h hbehind with hin | hout
      · rcases List.suffix_cons_iff.1 hin with heq | hin
        · exact absurd (heq ▸ List.mem_cons_self) hsep
        · exact hin
      · exact absurd (hout.subset List.mem_cons_self) hsep

theorem mem_of_mem_splitOnP {α : Type} {p : α → Bool} {xs l : List α} (h : l ∈ xs.splitOnP p) :
    ∀ x ∈ l, x ∈ xs ∧ p x = false := by
  induction xs generalizing l with
  | nil =>
    intro x hx
    rw [List.splitOnP_nil, List.mem_singleton] at h
    exact absurd (h ▸ hx) List.not_mem_nil
  | cons y ys ih =>
    rw [List.splitOnP_cons_eq_if_modifyHead] at h
    intro x hx
    split at h
    · rcases List.mem_cons.1 h with rfl | h
      · exact absurd hx List.not_mem_nil
      · exact ⟨List.mem_cons_of_mem y (ih h x hx).1, (ih h x hx).2⟩
    · rename_i hy
      obtain ⟨first, rest, hsplit⟩ := List.exists_cons_of_ne_nil (List.splitOnP_ne_nil p ys)
      rw [hsplit, List.modifyHead_cons] at h
      have hin {l : List α} (hl : l ∈ first :: rest) (hxl : x ∈ l) : x ∈ y :: ys ∧ p x = false :=
        ⟨List.mem_cons_of_mem y (ih (hsplit ▸ hl) x hxl).1, (ih (hsplit ▸ hl) x hxl).2⟩
      rcases List.mem_cons.1 h with rfl | h
      · rcases List.mem_cons.1 hx with rfl | hx
        · exact ⟨List.mem_cons_self, Bool.eq_false_iff.2 hy⟩
        · exact hin List.mem_cons_self hx
      · exact hin (List.mem_cons_of_mem first h) hx

theorem separator_not_mem_field {sep : Char} {s piece : String} (h : piece ∈ fields sep s) :
    sep ∉ piece.toList := by
  obtain ⟨cs, hcs, rfl⟩ := List.mem_map.1 h
  intro hsep
  rw [String.toList_ofList] at hsep
  have hother := (mem_of_mem_splitOnP hcs sep hsep).2
  simp at hother

theorem splitOn_intercalate_flatMap (sep : Char) {ls : List (List Char)} (h : ls ≠ []) :
    ([sep].intercalate ls).splitOn sep = ls.flatMap (List.splitOn sep) := by
  induction ls with
  | nil => exact absurd rfl h
  | cons l ls ih =>
    cases ls with
    | nil => simp
    | cons l' ls =>
      have hrest := ih (List.cons_ne_nil l' ls)
      rw [List.intercalate_cons_cons, List.append_assoc, List.singleton_append,
        List.splitOn_append_cons_self, hrest]
      rfl

theorem length_le_flatMap_splitOn (sep : Char) (ls : List (List Char)) :
    ls.length ≤ (ls.flatMap (List.splitOn sep)).length := by
  induction ls with
  | nil => simp
  | cons l ls ih =>
    have hone := List.length_pos_iff.2 (List.splitOn_ne_nil sep l)
    rw [List.flatMap_cons, List.length_append, List.length_cons]
    omega

/-- Where no piece is added, none had a separator. -/
theorem flatMap_splitOn_of_length {sep : Char} {ls : List (List Char)}
    (h : (ls.flatMap (List.splitOn sep)).length = ls.length) :
    ls.flatMap (List.splitOn sep) = ls := by
  induction ls with
  | nil => rfl
  | cons l ls ih =>
    have hone := List.length_pos_iff.2 (List.splitOn_ne_nil sep l)
    have hrest := length_le_flatMap_splitOn sep ls
    rw [List.flatMap_cons, List.length_append, List.length_cons] at h
    obtain ⟨piece, hpiece⟩ := List.length_eq_one_iff.1 (show (l.splitOn sep).length = 1 by omega)
    have hl : piece = l := by
      have hback : [sep].intercalate (l.splitOn sep) = l := List.intercalate_splitOn sep
      rw [hpiece] at hback
      simpa using hback
    rw [List.flatMap_cons, hpiece, hl, ih (by omega)]
    rfl

/-- Texts without separators are read back. -/
theorem fields_intercalate_of_not_mem {ss : List String} (hne : ss ≠ [])
    (h : ∀ s ∈ ss, '/' ∉ s.toList) : fields '/' ("/".intercalate ss) = ss := by
  have hsplit : ("/".intercalate ss).toList.splitOn '/' = ss.map String.toList := by
    rw [String.toList_intercalate]
    exact List.splitOn_intercalate '/' (by simpa using h) (by simpa using hne)
  rw [fields, hsplit, List.map_map]
  simp

/-- Texts that were put together with separators are read back where as many pieces come out. -/
theorem fields_intercalate {ss : List String} (hne : ss ≠ [])
    (h : (fields '/' ("/".intercalate ss)).length = ss.length) :
    fields '/' ("/".intercalate ss) = ss := by
  have hsplit : ("/".intercalate ss).toList.splitOn '/' =
      (ss.map String.toList).flatMap (List.splitOn '/') := by
    rw [String.toList_intercalate]
    exact splitOn_intercalate_flatMap '/' (by simpa using hne)
  have hlength : ((ss.map String.toList).flatMap (List.splitOn '/')).length =
      (ss.map String.toList).length := by
    rw [← hsplit, List.length_map, ← h, fields, List.length_map]
  rw [fields, hsplit, flatMap_splitOn_of_length hlength, List.map_map]
  simp

end SoftwareCatalog.Text
