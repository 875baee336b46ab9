namespace SoftwareCatalog

variable {α : Type}

/-- Appends `a` unless an entry is the same. -/
def addUnlessSame (same : α → α → Bool) (as : List α) (a : α) : List α :=
  if as.any fun b => same b a then as else as ++ [a]

/-- Appends `a` unless it is listed. -/
def addNew [DecidableEq α] (as : List α) (a : α) : List α :=
  addUnlessSame (fun b c => decide (b = c)) as a

theorem mem_addNew [DecidableEq α] {as : List α} {a b : α} :
    b ∈ addNew as a ↔ b ∈ as ∨ b = a := by
  unfold addNew addUnlessSame
  split
  · rename_i h
    obtain ⟨c, hc, he⟩ := List.any_eq_true.1 h
    have : c = a := of_decide_eq_true he
    constructor
    · exact .inl
    · intro heither
      rcases heither with h | rfl
      · exact h
      · exact this ▸ hc
  · simp

theorem nodup_addNew [DecidableEq α] {as : List α} (h : as.Nodup) (a : α) :
    (addNew as a).Nodup := by
  unfold addNew addUnlessSame
  split
  · exact h
  · rename_i hn
    refine List.nodup_append.2 ⟨h, by simp, ?_⟩
    intro x hx y hy hxy
    have hya : y = a := by simpa using hy
    exact hn (List.any_eq_true.2 ⟨x, hx, by simp [hxy, hya]⟩)

end SoftwareCatalog
