import Mathlib.Data.Nat.Bitwise
import SoftwareCatalog.Proofs.Search.TokenCache

namespace SoftwareCatalog.Search

theorem exists_top_difference {a b : Nat} (h : a ≠ b) :
    ∃ k, a.testBit k ≠ b.testBit k ∧ ∀ j, k < j → a.testBit j = b.testBit j := by
  have hxor : a ^^^ b ≠ 0 := fun hzero => h (Nat.xor_eq_zero_iff.1 hzero)
  obtain ⟨k, hk, habove⟩ := Nat.exists_most_significant_bit hxor
  refine ⟨k, by simpa [Nat.testBit_xor] using hk, ?_⟩
  intro j hj
  have hsame := habove j hj
  simpa [Nat.testBit_xor] using hsame

theorem le_iff_testBit {a b : Nat} : a ≤ b ↔ ∀ i, a.testBit i = true → b.testBit i = false →
    ∃ j, i < j ∧ b.testBit j = true ∧ a.testBit j = false := by
  by_cases heq : a = b
  · subst heq
    refine iff_of_true (Nat.le_refl a) ?_
    intro i hi hno
    simp [hi] at hno
  · obtain ⟨k, hk, habove⟩ := exists_top_difference heq
    cases ha : a.testBit k with
    | false =>
      have hb : b.testBit k = true := by simpa [ha] using hk
      refine iff_of_true (Nat.le_of_lt (Nat.lt_of_testBit k ha hb habove)) ?_
      intro i hi hno
      refine ⟨k, ?_, hb, ha⟩
      -- below the top difference, since the bit of `a` is not one of `b`
      by_contra hle
      rcases Nat.lt_or_eq_of_le (Nat.not_lt.1 hle) with hlt | rfl
      · simp [← habove i hlt, hi] at hno
      · simp [ha] at hi
    | true =>
      have hb : b.testBit k = false := by simpa [ha] using hk
      have hlt : b < a := Nat.lt_of_testBit k hb ha fun j hj => (habove j hj).symm
      refine iff_of_false (Nat.not_le.2 hlt) ?_
      intro hall
      obtain ⟨j, hj, hbj, haj⟩ := hall k ha hb
      simp [← habove j hj, haj] at hbj

namespace TokenCache

variable {t : TokenCache} {token : String} {w : Nat}

/-- The cache as if a token did not occur as such. -/
def without (t : TokenCache) (token : String) : TokenCache := ⟨t.tokens.erase token⟩

/-- Attributes that tell more than four times the sum `w`. One of them is not two ranks above an
attribute of `w`, and two ranks above each attribute of `w` that would make up for it stands another
of them. -/
def Outweighs (p : Nat → Prop) (w : Nat) : Prop :=
  ∃ i, p i ∧ (∀ j, w.testBit j = true → j + 2 ≠ i) ∧
    ∀ j, w.testBit j = true → i < j + 2 → p (j + 2)

theorem testBit_shifted {i : Nat} :
    (w <<< 2).testBit i = true ↔ ∃ j, w.testBit j = true ∧ j + 2 = i := by
  rw [Nat.testBit_shiftLeft, Bool.and_eq_true, decide_eq_true_eq]
  constructor
  · rintro ⟨hi, hbit⟩
    exact ⟨i - 2, hbit, by omega⟩
  · rintro ⟨j, hbit, rfl⟩
    exact ⟨by omega, by simpa using hbit⟩

theorem le_shifted_iff {n : Nat} : n ≤ w <<< 2 ↔ ¬ Outweighs (fun i => n.testBit i = true) w := by
  rw [le_iff_testBit]
  simp only [Outweighs, not_exists, not_and]
  constructor
  · intro hall i hi hno habove
    have hfalse : (w <<< 2).testBit i = false := by
      rw [Bool.eq_false_iff, ne_eq, testBit_shifted]
      rintro ⟨j, hj, heq⟩
      exact hno j hj heq
    obtain ⟨k, hik, hk, hnk⟩ := hall i hi hfalse
    obtain ⟨j, hj, rfl⟩ := testBit_shifted.1 hk
    simp [habove j hj hik] at hnk
  · intro hall i hi hno
    have hapart : ∀ j, w.testBit j = true → j + 2 ≠ i := by
      intro j hj heq
      simp [testBit_shifted.2 ⟨j, hj, heq⟩] at hno
    by_contra hnone
    apply hall i hi hapart
    intro j hj hij
    by_contra hnot
    exact hnone ⟨j + 2, hij, testBit_shifted.2 ⟨j, hj, rfl⟩, Bool.eq_false_iff.2 hnot⟩

theorem prefixWeight_le_shifted_iff :
    t.prefixWeight token ≤ w <<< 2 ↔ ¬ Outweighs (t.Reaches token) w := by
  have hbits : t.Reaches token = fun i => (t.prefixWeight token).testBit i = true := by
    funext i
    exact propext testBit_prefixWeight.symm
  rw [hbits]
  exact le_shifted_iff

theorem score_without : (t.without token).score token = (t.without token).prefixWeight token := by
  have hnone : (t.without token).get? token = none := by simp [without, get?]
  rw [score, hnone]

/-- A token that occurs as such scores at least what it would score as the beginning of tokens,
itself or only longer ones, if and only if these do not outweigh it. -/
theorem exact_hit_prevails_iff (h : t.get? token = some w) :
    (t.prefixWeight token ≤ t.score token ↔ ¬ Outweighs (t.Reaches token) w) ∧
    ((t.without token).score token ≤ t.score token ↔
      ¬ Outweighs ((t.without token).Reaches token) w) := by
  have hscore : t.score token = w <<< 2 := by rw [score, h]
  rw [hscore, score_without]
  exact ⟨prefixWeight_le_shifted_iff, prefixWeight_le_shifted_iff⟩

/-- Words as they stand, in English. -/
def unstemmed : Context := .ofSettings { locales := ["en"], stemming := false }

/-- A map that is described as a mapping. -/
def mappingMap : Component where
  names := TextMap.empty.insert "en" "Map"
  comments := TextMap.empty.insert "en" "Mapping"

/-- The name tells more than the comment. -/
theorem exact_hit_prevails_map :
    (build unstemmed mappingMap []).get? "map" = some 64 ∧
    (build unstemmed mappingMap []).prefixWeight "map" ≤
      (build unstemmed mappingMap []).score "map" := by
  have hget : (build unstemmed mappingMap []).get? "map" = some 64 := by decide +kernel
  refine ⟨hget, (exact_hit_prevails_iff hget).1.2 ?_⟩
  rintro ⟨i, hi, -, habove⟩
  have hsum : (build unstemmed mappingMap []).prefixWeight "map" = 96 := by decide +kernel
  have hbit {k : Nat} (hk : (build unstemmed mappingMap []).Reaches "map" k) : k < 8 := by
    have htest := testBit_prefixWeight.2 hk
    rw [hsum] at htest
    have hle := Nat.ge_two_pow_of_testBit htest
    by_contra hlarge
    have hpow : 2 ^ 8 ≤ 2 ^ k := Nat.pow_le_pow_right (by decide) (by omega)
    omega
  have htop := hbit (habove 6 (by decide) (hbit hi))
  omega

/-- Maps from a place that is named after one. -/
def mapsFromMap : Component := { Component.ofId "maps" with origin := some "map" }

/-- The ID alone scores `128` for the word that it begins with. With the origin, where the word
occurs as such, that is `4`. -/
theorem exact_hit_outweighed :
    (build unstemmed mapsFromMap []).get? "map" = some 1 ∧
    ¬ (build unstemmed mapsFromMap []).prefixWeight "map" ≤
      (build unstemmed mapsFromMap []).score "map" ∧
    ¬ ((build unstemmed mapsFromMap []).without "map").score "map" ≤
      (build unstemmed mapsFromMap []).score "map" := by
  have hscore : (build unstemmed mapsFromMap []).score "map" = 4 := by decide +kernel
  have hprefix : (build unstemmed mapsFromMap []).prefixWeight "map" = 129 := by decide +kernel
  have hwithout : ((build unstemmed mapsFromMap []).without "map").score "map" = 128 := by
    decide +kernel
  refine ⟨by decide +kernel, ?_, ?_⟩
  · rw [hscore, hprefix]
    decide
  · rw [hscore, hwithout]
    decide

end TokenCache

end SoftwareCatalog.Search
