import Mathlib.Data.List.Range
import Mathlib.Logic.Function.Basic
/-!
# Common — a memory that remembers where it was written

Loops that write through an index are read off two facts: what each
place holds at the end, and which places were written. The loops here
are the two a screen needs, a fill and a copy towards lower indices in
place. A loop over rows and columns is one loop over the places.
-/

namespace Kos

variable {α σ : Type*}

/-- A memory, and the places written so far. -/
structure Traced (α : Type*) where
  cell : ℕ → α
  written : List ℕ

namespace Traced

/-- A store. -/
def write (m : Traced α) (i : ℕ) (v : α) : Traced α :=
  ⟨Function.update m.cell i v, i :: m.written⟩

theorem cell_write_self (m : Traced α) (i : ℕ) (v : α) : (m.write i v).cell i = v := by
  change Function.update m.cell i v i = v
  rw [Function.update_self]

theorem cell_write_of_ne (m : Traced α) {i j : ℕ} (v : α) (h : j ≠ i) :
    (m.write i v).cell j = m.cell j := by
  change Function.update m.cell i v j = m.cell j
  rw [Function.update_of_ne h]

/-- **Every place written** was so before, or is below a bound. -/
def Within (n : ℕ) (m m' : Traced α) : Prop := ∀ i ∈ m'.written, i ∈ m.written ∨ i < n

theorem Within.refl (n : ℕ) (m : Traced α) : Within n m m := fun _ h => Or.inl h

theorem Within.trans {n : ℕ} {m m' m'' : Traced α} (h : Within n m m') (h' : Within n m' m'') :
    Within n m m'' := by
  intro i hi
  rcases h' i hi with hi' | hlt
  · exact h i hi'
  · exact Or.inr hlt

theorem Within.write {n i : ℕ} (m : Traced α) (v : α) (hi : i < n) : Within n m (m.write i v) := by
  intro j hj
  rcases List.mem_cons.1 hj with rfl | hj
  · exact Or.inr hi
  · exact Or.inl hj

/-- A loop of stores below a bound. -/
theorem Within.foldl {n : ℕ} {place : ℕ → ℕ} {val : Traced α → ℕ → α} (m : Traced α) {l : List ℕ}
    (h : ∀ i ∈ l, place i < n) :
    Within n m (l.foldl (fun m i => m.write (place i) (val m i)) m) := by
  induction l generalizing m with
  | nil => exact Within.refl n m
  | cons i l ih =>
    have hfirst := Within.write m (val m i) (h i List.mem_cons_self)
    exact hfirst.trans (ih _ fun j hj => h j (List.mem_cons_of_mem i hj))

/-- **A fill**: the places it goes through hold the value, the others are
as before. -/
theorem cell_fill (m : Traced α) (base n : ℕ) (v : α) (j : ℕ) :
    ((List.range n).foldl (fun m i => m.write (base + i) v) m).cell j =
      if base ≤ j ∧ j < base + n then v else m.cell j := by
  induction n with
  | zero => exact (if_neg (by omega)).symm
  | succ n ih =>
    rw [List.range_succ, List.foldl_append, List.foldl_cons, List.foldl_nil]
    by_cases hj : j = base + n
    · rw [hj, cell_write_self, if_pos (by omega)]
    · rw [cell_write_of_ne _ _ hj, ih]
      exact if_congr (by omega) rfl rfl

/-- The places of a fill. -/
theorem written_fill (m : Traced α) (base n : ℕ) (v : α) (j : ℕ) :
    j ∈ ((List.range n).foldl (fun m i => m.write (base + i) v) m).written ↔
      j ∈ m.written ∨ (base ≤ j ∧ j < base + n) := by
  induction n with
  | zero => exact ⟨Or.inl, fun h => h.resolve_right (by omega)⟩
  | succ n ih =>
    have hplaces : base ≤ j ∧ j < base + (n + 1) ↔ j = base + n ∨ (base ≤ j ∧ j < base + n) := by
      omega
    rw [List.range_succ, List.foldl_append, List.foldl_cons, List.foldl_nil, write, List.mem_cons, ih,
      hplaces, or_left_comm]

/-- **A copy in place towards lower indices**: each place takes what the
one `d` above it held, since that one has not been written yet. -/
theorem cell_shift (m : Traced α) {d : ℕ} (hd : 0 < d) (n j : ℕ) :
    ((List.range n).foldl (fun m i => m.write i (m.cell (i + d))) m).cell j =
      if j < n then m.cell (j + d) else m.cell j := by
  induction n generalizing j with
  | zero => exact (if_neg (Nat.not_lt_zero j)).symm
  | succ n ih =>
    rw [List.range_succ, List.foldl_append, List.foldl_cons, List.foldl_nil]
    by_cases hj : j = n
    · rw [hj, cell_write_self, ih, if_neg (by omega), if_pos (by omega)]
    · rw [cell_write_of_ne _ _ hj, ih]
      exact if_congr (by omega) rfl rfl

end Traced

/-- **A loop over rows and columns is one loop over the places.** -/
theorem foldl_range_mul (f : σ → ℕ → σ) (s : σ) (h w : ℕ) :
    (List.range h).foldl (fun s y => (List.range w).foldl (fun s x => f s (y * w + x)) s) s =
      (List.range (h * w)).foldl f s := by
  induction h with
  | zero => rw [Nat.zero_mul]; rfl
  | succ h ih =>
    rw [List.range_succ, List.foldl_append, ih, Nat.succ_mul, List.range_add, List.foldl_append,
      List.foldl_map]
    rfl

end Kos
