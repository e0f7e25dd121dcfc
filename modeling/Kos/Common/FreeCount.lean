import Mathlib.Data.Finset.Card
import Mathlib.Order.Interval.Finset.Nat
/-!
# Common — counting the clear bits of a bit map

A bit map is read as a predicate `used : ℕ → Bool`, and `freeCount used n`
counts its clear bits below `n`. Taking a run of clear bits lowers the
count by the length of the run; that is the whole accounting of an
allocator whose counter sits beside a bitmap.
-/

namespace Kos

variable {used used' : ℕ → Bool} {n : ℕ}

/-- The number of clear bits below `n`. -/
def freeCount (used : ℕ → Bool) (n : ℕ) : ℕ :=
  ((Finset.range n).filter fun i => used i = false).card

theorem freeCount_congr (h : ∀ i, i < n → used i = used' i) :
    freeCount used n = freeCount used' n := by
  unfold freeCount
  congr 1
  refine Finset.filter_congr fun i hi => ?_
  rw [h i (Finset.mem_range.1 hi)]

theorem freeCount_le (used : ℕ → Bool) (n : ℕ) : freeCount used n ≤ n := by
  calc freeCount used n ≤ (Finset.range n).card := Finset.card_filter_le _ _
    _ = n := Finset.card_range n

theorem freeCount_of_all_used (h : ∀ i, i < n → used i = true) : freeCount used n = 0 := by
  rw [freeCount, Finset.card_eq_zero, Finset.filter_eq_empty_iff]
  intro i hi
  simp [h i (Finset.mem_range.1 hi)]

/-- **Taking a run of clear bits lowers the count by its length.** -/
theorem freeCount_take {s c : ℕ} (hn : s + c ≤ n)
    (hclear : ∀ i, s ≤ i → i < s + c → used i = false)
    (hset : ∀ i, i < n → (used' i = true ↔ used i = true ∨ (s ≤ i ∧ i < s + c))) :
    freeCount used' n + c = freeCount used n := by
  have hsplit : ((Finset.range n).filter fun i => used i = false) =
      ((Finset.range n).filter fun i => used' i = false) ∪ Finset.Ico s (s + c) := by
    ext i
    simp only [Finset.mem_union, Finset.mem_filter, Finset.mem_range, Finset.mem_Ico]
    constructor
    · rintro ⟨hi, hu⟩
      by_cases hrun : s ≤ i ∧ i < s + c
      · exact Or.inr hrun
      · refine Or.inl ⟨hi, ?_⟩
        rw [← Bool.not_eq_true, hset i hi]
        simp [hu, hrun]
    · rintro (⟨hi, hu⟩ | hrun)
      · refine ⟨hi, ?_⟩
        rw [← Bool.not_eq_true] at hu ⊢
        exact fun h => hu ((hset i hi).2 (Or.inl h))
      · exact ⟨by omega, hclear i hrun.1 hrun.2⟩
  have hdisj : Disjoint ((Finset.range n).filter fun i => used' i = false)
      (Finset.Ico s (s + c)) := by
    rw [Finset.disjoint_left]
    intro i hi hrun
    simp only [Finset.mem_filter, Finset.mem_range, Finset.mem_Ico] at hi hrun
    have := (hset i hi.1).2 (Or.inr hrun)
    rw [hi.2] at this
    exact Bool.noConfusion this
  rw [freeCount, freeCount, hsplit, Finset.card_union_of_disjoint hdisj, Nat.card_Ico]
  omega

/-- **Giving back one used bit raises the count by one.** -/
theorem freeCount_give {s : ℕ} (hs : s < n) (hused : used s = true)
    (hset : ∀ i, i < n → (used' i = true ↔ used i = true ∧ i ≠ s)) :
    freeCount used' n = freeCount used n + 1 := by
  refine (@freeCount_take used' used n s 1 (by omega) ?_ ?_).symm
  · intro i h1 h2
    have hi : i = s := by omega
    rw [← Bool.not_eq_true, hset i (by omega)]
    simp [hi]
  · intro i hi
    rw [hset i hi]
    by_cases his : i = s
    · subst his; simp [hused]
    · simp [his]; omega

end Kos
