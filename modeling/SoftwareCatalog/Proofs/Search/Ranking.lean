import SoftwareCatalog.Search.Ranking

namespace SoftwareCatalog.Search.Hit

/-- A hit with a higher score comes first, and of hits with one score the one with the smaller
unique ID. -/
def Precedes (a b : Hit) : Prop :=
  b.score < a.score ∨ a.score = b.score ∧ a.uniqueId ≤ b.uniqueId

instance (a b : Hit) : Decidable (a.Precedes b) :=
  inferInstanceAs (Decidable (b.score < a.score ∨ a.score = b.score ∧ a.uniqueId ≤ b.uniqueId))

variable {a b c : Hit} {hits others ranked : List Hit}

theorem before_iff : a.before b = true ↔ a.Precedes b := by
  unfold before Precedes
  simp only [Bool.or_eq_true, Bool.and_eq_true, Bool.not_eq_true', decide_eq_true_eq,
    decide_eq_false_iff_not, beq_iff_eq, String.not_lt]

theorem Precedes.trans (h : a.Precedes b) (k : b.Precedes c) : a.Precedes c := by
  rcases h with h | ⟨hscore, h⟩
  · rcases k with k | ⟨kscore, -⟩
    · exact .inl (Nat.lt_trans k h)
    · exact .inl (kscore ▸ h)
  · rcases k with k | ⟨kscore, k⟩
    · exact .inl (hscore ▸ k)
    · exact .inr ⟨hscore.trans kscore, String.le_trans h k⟩

theorem Precedes.total (a b : Hit) : a.Precedes b ∨ b.Precedes a := by
  rcases Nat.lt_trichotomy a.score b.score with h | h | h
  · exact .inr (.inl h)
  · exact (String.le_total a.uniqueId b.uniqueId).imp (fun k => .inr ⟨h, k⟩)
      fun k => .inr ⟨h.symm, k⟩
  · exact .inl (.inl h)

/-- There is nothing in a hit that its place does not depend on. -/
theorem Precedes.antisymm (h : a.Precedes b) (k : b.Precedes a) : a = b := by
  obtain ⟨m, u⟩ := a
  obtain ⟨n, v⟩ := b
  rcases h with h | ⟨hscore, h⟩
  · rcases k with k | ⟨kscore, -⟩
    · exact absurd k (Nat.lt_asymm h)
    · exact absurd kscore (Nat.ne_of_lt h)
  · rcases k with k | ⟨-, k⟩
    · exact absurd hscore (Nat.ne_of_lt k)
    · rw [Hit.mk.injEq]
      exact ⟨hscore, String.le_antisymm h k⟩

theorem rank_perm (hits : List Hit) : (rank hits).Perm hits :=
  List.mergeSort_perm hits before

theorem pairwise_rank (hits : List Hit) : (rank hits).Pairwise Precedes := by
  have htrans (a b c : Hit) (h : a.before b = true) (k : b.before c = true) :
      a.before c = true :=
    before_iff.2 ((before_iff.1 h).trans (before_iff.1 k))
  have htotal (a b : Hit) : (a.before b || b.before a) = true := by
    rw [Bool.or_eq_true, before_iff, before_iff]
    exact Precedes.total a b
  exact (List.pairwise_mergeSort htrans htotal hits).imp before_iff.1

/-- There is one way only to put hits in order. -/
theorem eq_of_perm_of_pairwise (h : hits.Perm others) (hhits : hits.Pairwise Precedes)
    (hothers : others.Pairwise Precedes) : hits = others :=
  h.eq_of_pairwise (fun _ _ _ _ => Precedes.antisymm) hhits hothers

theorem eq_rank_iff : ranked = rank hits ↔ ranked.Perm hits ∧ ranked.Pairwise Precedes := by
  constructor
  · rintro rfl
    exact ⟨rank_perm hits, pairwise_rank hits⟩
  · rintro ⟨hperm, hsorted⟩
    exact eq_of_perm_of_pairwise (hperm.trans (rank_perm hits).symm) hsorted (pairwise_rank hits)

/-- Hits are ranked alike if and only if they are the same hits in whatever order. -/
theorem rank_eq_rank_iff : rank hits = rank others ↔ hits.Perm others := by
  rw [eq_rank_iff, and_iff_left (pairwise_rank hits)]
  exact ⟨(rank_perm hits).symm.trans, (rank_perm hits).trans⟩

theorem mem_rank {hit : Hit} : hit ∈ rank hits ↔ hit ∈ hits := (rank_perm hits).mem_iff

end SoftwareCatalog.Search.Hit
