import Mathlib.Data.List.Rotate
import Mathlib.Data.Nat.ModEq
/-!
# Common — taking turns

Those on a list take turns by going round it: the first steps back to
the end. After `k` turns the list is rotated by `k`, the one whose turn
it is stands at place `k` counted round the list, and in any window as
long as the list everyone has exactly one turn.
-/

namespace Kos

namespace Turns

variable {α : Type*} {l rest : List α} {x : α} {k : ℕ}

/-- The first steps back to the end. -/
theorem rotate_succ (h : l.rotate k = x :: rest) : l.rotate (k + 1) = rest ++ [x] := by
  rw [← List.rotate_rotate, h, List.rotate_cons_succ, List.rotate_zero]

/-- Whose turn it is. -/
theorem getElem?_of_rotate (h : l.rotate k = x :: rest) : l[k % l.length]? = some x := by
  have hpos : 0 < l.length := by
    rw [← List.length_rotate l k, h]
    exact Nat.succ_pos _
  have hfirst := List.getElem?_rotate (l := l) (n := k) hpos
  rw [h, Nat.zero_add] at hfirst
  exact hfirst.symm

/-- Every residue comes up once in a window. -/
theorem existsUnique_mod {n j : ℕ} (hj : j < n) (k : ℕ) :
    ∃! i, k < i ∧ i ≤ k + n ∧ i % n = j := by
  refine existsUnique_of_exists_of_unique ?_ ?_
  · have hlt : (k + 1) % n < n := Nat.mod_lt _ (by omega)
    have hless := Nat.mod_lt (j + n - (k + 1) % n) (by omega : 0 < n)
    refine ⟨k + 1 + (j + n - (k + 1) % n) % n, by omega, by omega, ?_⟩
    calc (k + 1 + (j + n - (k + 1) % n) % n) % n
        = ((k + 1) % n + (j + n - (k + 1) % n)) % n := by rw [Nat.add_mod_mod, Nat.mod_add_mod]
      _ = (j + n) % n := by congr 1; omega
      _ = j := by rw [Nat.add_mod_right, Nat.mod_eq_of_lt hj]
  · rintro i i' ⟨hlow, hhigh, hmod⟩ ⟨hlow', hhigh', hmod'⟩
    -- two turns with one residue are a whole round apart
    have hcong : i ≡ i' [MOD n] := hmod.trans hmod'.symm
    exact hcong.eq_of_abs_lt (abs_lt.mpr ⟨by omega, by omega⟩)

/-- **Everyone has exactly one turn in a window** as long as the list. -/
theorem existsUnique_turn (hl : l.Nodup) (hx : x ∈ l) (k : ℕ) :
    ∃! i, k < i ∧ i ≤ k + l.length ∧ l[i % l.length]? = some x := by
  obtain ⟨j, hj, rfl⟩ := List.getElem_of_mem hx
  have hturn : ∀ i, l[i % l.length]? = some l[j] ↔ i % l.length = j := by
    intro i
    have hi : i % l.length < l.length := Nat.mod_lt _ (by omega)
    rw [List.getElem?_eq_getElem hi, Option.some_inj]
    exact hl.getElem_inj_iff
  simp only [hturn]
  exact existsUnique_mod hj k

end Turns

end Kos
