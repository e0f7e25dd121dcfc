import Mathlib.Data.List.Range
import Mathlib.Data.List.Induction
/-!
# Common — waiting for the next number

One who takes numbers in order, from 0 on, drops every number that is
not the next. What is taken of a list of numbers is as much of
`0, 1, 2, …` as the list has in this order, with whatever else between.
-/

namespace Kos

/-- The number waited for after one more came. -/
def takeNumber (n k : ℕ) : ℕ := if k = n then n + 1 else n

/-- How many were taken in order. -/
def inTurn (ks : List ℕ) : ℕ := ks.foldl takeNumber 0

variable {m n k : ℕ} {ks : List ℕ}

theorem inTurn_concat (ks : List ℕ) (k : ℕ) : inTurn (ks ++ [k]) = takeNumber (inTurn ks) k := by
  rw [inTurn, List.foldl_append]
  rfl

theorem le_takeNumber (n k : ℕ) : n ≤ takeNumber n k := by
  unfold takeNumber
  split <;> omega

/-- **What is taken is the longest start of the numbers** that the list
contains in order. -/
theorem range_sublist_iff : List.Sublist (List.range m) ks ↔ m ≤ inTurn ks := by
  induction ks using List.reverseRecOn generalizing m with
  | nil =>
    rw [List.sublist_nil, List.range_eq_nil]
    exact Nat.le_zero.symm
  | append_singleton ks k ih =>
    rw [inTurn_concat]
    constructor
    · intro h
      obtain ⟨a, b, heq, ha, hb⟩ := List.sublist_append_iff.1 h
      rcases List.sublist_singleton.1 hb with rfl | rfl
      · rw [List.append_nil] at heq
        exact (ih.1 (heq ▸ ha)).trans (le_takeNumber _ k)
      · -- the last number is the last of the list
        cases m with
        | zero => exact Nat.zero_le _
        | succ m =>
          rw [List.range_succ] at heq
          obtain ⟨rfl, hk⟩ := List.append_inj' heq rfl
          obtain rfl : m = k := (List.cons.inj hk).1
          have hle := ih.1 ha
          unfold takeNumber
          split <;> omega
    · intro h
      rcases Nat.lt_or_ge (inTurn ks) m with hlt | hle
      · -- one more than before, so the last of the list was waited for
        unfold takeNumber at h
        split at h
        · rename_i hk
          obtain rfl : m = inTurn ks + 1 := by omega
          rw [List.range_succ, ← hk]
          refine List.Sublist.append ?_ (List.Sublist.refl [k])
          rw [hk]
          exact ih.2 le_rfl
        · omega
      · exact List.sublist_append_of_sublist_left (ih.2 hle)

end Kos
