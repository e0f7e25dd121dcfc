import Kos.Common.ByteMem
/-!
# Strings — the routines of `string.c` other subsystems call
-/

namespace Kos

/-- `strncpy`. The first loop leaves `n` as it was when it copies the
terminator, so the second loop writes one zero more than is left. -/
def strncpy (mem : ByteMem) (d s : ℕ) : ℕ → ByteMem
  | 0 => mem
  | n + 1 =>
    let c := mem s
    let mem : ByteMem := Function.update mem d c
    if c = 0 then mem.fill (d + 1) (n + 1) 0 else strncpy mem (d + 1) (s + 1) n

/-- `strncpy` writes to `n + 1` bytes at most. -/
theorem strncpy_of_not_mem {mem : ByteMem} {d s n x : ℕ} (h : ¬ (d ≤ x ∧ x < d + n + 1)) :
    strncpy mem d s n x = mem x := by
  induction n generalizing mem d s with
  | zero => rfl
  | succ n ih =>
    have hx : x ≠ d := by omega
    rw [strncpy]
    split
    · rw [ByteMem.fill_of_not_mem (by omega), Function.update_of_ne hx]
    · rw [ih (by omega), Function.update_of_ne hx]

end Kos
