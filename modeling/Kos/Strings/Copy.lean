import Kos.Common.Traced
import Kos.Common.Word
import Kos.Strings
/-!
# Strings — copies that may overlap

`memmove` copies upwards where the destination is below the source and
downwards otherwise, so a byte is read before it is written over.
`memcpy` always copies upwards. `strncpy` copies upwards as well, up to
the terminator; its first loop leaves the count as it was when it copies
that, so the second loop writes one byte more than was asked for.
-/

namespace Kos

variable {mem : ByteMem} {d s n L x : ℕ}

/-! ## `memcpy` and `memmove` -/

/-- `while (n--) *dst++ = *src++`. -/
def copyUp (mem : ByteMem) (dst src : ℕ) : ℕ → ByteMem
  | 0 => mem
  | n + 1 => copyUp (Function.update mem dst (mem src)) (add64 dst 1) (add64 src 1) n

/-- `while (n--) *--dst = *--src`. -/
def copyDown (mem : ByteMem) (dst src : ℕ) : ℕ → ByteMem
  | 0 => mem
  | n + 1 =>
    copyDown (Function.update mem (sub64 dst 1) (mem (sub64 src 1))) (sub64 dst 1) (sub64 src 1) n

/-- `memcpy`, which returns `d`. -/
def memcpy (mem : ByteMem) (d s n : ℕ) : ByteMem := copyUp mem d s n

/-- `memmove`, which returns `d`. -/
def memmove (mem : ByteMem) (d s n : ℕ) : ByteMem :=
  if d < s then copyUp mem d s n else copyDown mem (add64 d n) (add64 s n) n

theorem copy_zero (mem : ByteMem) (d s : ℕ) : mem.copy d s 0 = mem := by
  funext x
  exact if_neg (by omega)

/-- The first byte of a copy, and the others. -/
theorem copy_succ (h : d ≤ s ∨ s + (n + 1) ≤ d) :
    ByteMem.copy (Function.update mem d (mem s)) (d + 1) (s + 1) n = mem.copy d s (n + 1) := by
  funext x
  unfold ByteMem.copy
  by_cases hx : d + 1 ≤ x ∧ x < d + 1 + n
  · -- the source byte is not the one that was written
    have hsrc : x - (d + 1) + (s + 1) = x - d + s := by omega
    rw [if_pos hx, if_pos (by omega), hsrc, Function.update_of_ne (by omega)]
  · rw [if_neg hx]
    by_cases hd : x = d
    · rw [hd, Function.update_self, if_pos (by omega), Nat.sub_self, Nat.zero_add]
    · rw [Function.update_of_ne hd, if_neg (by omega)]

/-- The last byte of a copy, and the others. -/
theorem copy_succ_last (h : s ≤ d) :
    ByteMem.copy (Function.update mem (d + n) (mem (s + n))) d s n = mem.copy d s (n + 1) := by
  funext x
  unfold ByteMem.copy
  by_cases hx : d ≤ x ∧ x < d + n
  · rw [if_pos hx, if_pos (by omega), Function.update_of_ne (by omega)]
  · rw [if_neg hx]
    by_cases hd : x = d + n
    · rw [hd, Function.update_self, if_pos (by omega), Nat.add_sub_cancel_left, Nat.add_comm n s]
    · rw [Function.update_of_ne hd, if_neg (by omega)]

/-- **Upwards, a byte is read before it is written over** unless the
destination is inside the source, past its first byte. -/
theorem copyUp_eq (hd : d + n ≤ 2 ^ 64) (hs : s + n ≤ 2 ^ 64) (h : d ≤ s ∨ s + n ≤ d) :
    copyUp mem d s n = mem.copy d s n := by
  induction n generalizing mem d s with
  | zero => exact (copy_zero mem d s).symm
  | succ n ih =>
    rw [copyUp, ← copy_succ h]
    -- the pointers can wrap only where nothing is left to copy
    rcases Nat.eq_zero_or_pos n with rfl | hpos
    · exact (copy_zero ..).symm
    · rw [add64_of_lt (by omega), add64_of_lt (by omega)]
      exact ih (by omega) (by omega) (by omega)

/-- **Downwards, too**, if the destination is not below the source. -/
theorem copyDown_eq (hd : d + n ≤ 2 ^ 64) (hs : s + n ≤ 2 ^ 64) (h : s ≤ d) :
    copyDown mem (add64 d n) (add64 s n) n = mem.copy d s n := by
  induction n generalizing mem with
  | zero => exact (copy_zero mem d s).symm
  | succ n ih =>
    have hback : ∀ p, p + (n + 1) ≤ 2 ^ 64 →
        sub64 (add64 p (n + 1)) 1 = p + n ∧ add64 p n = p + n := by
      intro p hp
      unfold sub64 add64
      omega
    rw [copyDown, (hback d hd).1, (hback s hs).1, ← (hback d hd).2, ← (hback s hs).2,
      ih (by omega) (by omega), (hback d hd).2, (hback s hs).2]
    exact copy_succ_last h

/-- **`memmove` moves, and `memcpy` does where it does not copy over what
it has yet to read.** -/
theorem memmove_moves (mem : ByteMem) (hd : d + n ≤ 2 ^ 64) (hs : s + n ≤ 2 ^ 64) :
    (∀ i < n, memmove mem d s n (d + i) = mem (s + i)) ∧
      (∀ x, ¬ (d ≤ x ∧ x < d + n) → memmove mem d s n x = mem x) ∧
      (d + n ≤ s ∨ s + n ≤ d ∨ d < s → memcpy mem d s n = memmove mem d s n) := by
  have hmove : memmove mem d s n = mem.copy d s n := by
    unfold memmove
    split
    · exact copyUp_eq hd hs (by omega)
    · exact copyDown_eq hd hs (by omega)
  refine ⟨fun i hi => ?_, fun x hx => ?_, fun h => ?_⟩
  · rw [hmove, ByteMem.copy, if_pos (by omega), Nat.add_sub_cancel_left, Nat.add_comm i s]
  · rw [hmove, ByteMem.copy_of_not_mem hx]
  · rw [hmove]
    exact copyUp_eq hd hs (by omega)

/-- Five bytes are moved up by two, over themselves. -/
theorem memmove_moves_over :
    (∀ i < 5, memmove UInt8.ofNat 102 100 5 (102 + i) = UInt8.ofNat (100 + i)) ∧
      memmove UInt8.ofNat 102 100 5 107 = 107 :=
  have h := memmove_moves UInt8.ofNat (d := 102) (s := 100) (n := 5) (by decide) (by decide)
  ⟨h.1, h.2.1 107 (by decide)⟩

/-! ## `strncpy` -/

/-- `strncpy`, with the places it writes to: the bytes that are copied, up
to the terminator, and the loop of zeros. -/
def strncpyTraced (m : Traced UInt8) (d s : ℕ) : ℕ → Traced UInt8
  | 0 => m
  | n + 1 =>
    let c := m.cell s
    let m := m.write d c
    if c = 0 then (List.range (n + 1)).foldl (fun m i => m.write (d + 1 + i) 0) m
    else strncpyTraced m (d + 1) (s + 1) n

theorem cell_strncpyTraced (m : Traced UInt8) (d s n : ℕ) :
    (strncpyTraced m d s n).cell = strncpy m.cell d s n := by
  induction n generalizing m d s with
  | zero => rfl
  | succ n ih =>
    rw [strncpyTraced, strncpy]
    split
    · funext x
      exact Traced.cell_fill ..
    · exact ih ..

/-- **A string** of `L` bytes and its terminator. -/
structure IsStr (mem : ByteMem) (s L : ℕ) : Prop where
  bytes : ∀ i < L, mem (s + i) ≠ 0
  terminator : mem (s + L) = 0

/-- **`strncpy` as it is meant**: the `n` bytes of the destination are
written and no others, with the bytes of the string and then zeros. -/
structure CopiesExactly (mem : ByteMem) (d s n L : ℕ) : Prop where
  written : ∀ x, x ∈ (strncpyTraced ⟨mem, []⟩ d s n).written ↔ d ≤ x ∧ x < d + n
  bytes : ∀ i < n, strncpy mem d s n (d + i) = if i < L then mem (s + i) else 0
  frame : ∀ x, ¬ (d ≤ x ∧ x < d + n) → strncpy mem d s n x = mem x

/-- **The `i`-th byte that is read.** Where the destination starts inside
the source, what was copied is read again. -/
def readAt (mem : ByteMem) (d s i : ℕ) : UInt8 :=
  if s < d then mem (s + i % (d - s)) else mem (s + i)

/-- Memory when `k` bytes have been copied. -/
def copied (mem : ByteMem) (d s k : ℕ) : ByteMem :=
  fun x => if d ≤ x ∧ x < d + k then readAt mem d s (x - d) else mem x

theorem copied_source (mem : ByteMem) (d s k : ℕ) :
    copied mem d s k (s + k) = readAt mem d s k := by
  unfold copied readAt
  by_cases hsd : s < d
  · rw [if_pos hsd, if_pos hsd]
    by_cases hk : d ≤ s + k ∧ s + k < d + k
    · -- a byte that was copied `d - s` steps ago
      have hback : s + k - d = k - (d - s) := by omega
      rw [if_pos hk, hback, ← Nat.mod_eq_sub_mod (by omega)]
    · rw [if_neg hk, Nat.mod_eq_of_lt (by omega)]
  · rw [if_neg hsd, if_neg hsd, if_neg (by omega)]

theorem copied_target {i k : ℕ} (mem : ByteMem) (d s : ℕ) (hi : i < k) :
    copied mem d s k (d + i) = readAt mem d s i := by
  rw [copied, if_pos (by omega), Nat.add_sub_cancel_left]

theorem update_copied (mem : ByteMem) (d s k : ℕ) :
    Function.update (copied mem d s k) (d + k) (readAt mem d s k) = copied mem d s (k + 1) := by
  funext x
  unfold copied
  by_cases hx : x = d + k
  · rw [hx, Function.update_self, if_pos (by omega), Nat.add_sub_cancel_left]
  · rw [Function.update_of_ne hx]
    exact if_congr (by omega) rfl rfl

/-- **`strncpy` copies as long as it reads no terminator.** -/
theorem strncpyTraced_copied {m : Traced UInt8} {k : ℕ} (hm : m.cell = copied mem d s k)
    (h : ∀ i < n, readAt mem d s (k + i) ≠ 0) :
    (strncpyTraced m (d + k) (s + k) n).cell = copied mem d s (k + n) ∧
      ∀ x, x ∈ (strncpyTraced m (d + k) (s + k) n).written ↔
        x ∈ m.written ∨ (d + k ≤ x ∧ x < d + k + n) := by
  induction n generalizing m k with
  | zero => exact ⟨hm, fun x => ⟨Or.inl, fun h => h.resolve_right (by omega)⟩⟩
  | succ n ih =>
    have hread : m.cell (s + k) = readAt mem d s k := by rw [hm, copied_source]
    have hne : m.cell (s + k) ≠ 0 := by
      rw [hread]
      exact h 0 (Nat.succ_pos n)
    rw [strncpyTraced]
    simp only [if_neg hne]
    obtain ⟨hcell, hwritten⟩ := @ih (m.write (d + k) (m.cell (s + k))) (k + 1)
      (by rw [Traced.write, hread, hm, update_copied])
      fun i hi => by
        rw [show k + 1 + i = k + (i + 1) by omega]
        exact h (i + 1) (by omega)
    refine ⟨hcell.trans (by rw [Nat.add_assoc, Nat.add_comm 1 n]), fun x => ?_⟩
    refine (hwritten x).trans ?_
    have hplaces : d + k ≤ x ∧ x < d + k + (n + 1) ↔
        x = d + k ∨ (d + (k + 1) ≤ x ∧ x < d + (k + 1) + n) := by omega
    rw [Traced.write, List.mem_cons, hplaces]
    tauto

/-- **With a terminator it writes one byte more than it was asked for.** -/
theorem strncpyTraced_past {m : Traced UInt8} {k : ℕ} (hm : m.cell = copied mem d s k)
    (h : ∃ i < n, readAt mem d s (k + i) = 0) :
    d + k + n ∈ (strncpyTraced m (d + k) (s + k) n).written := by
  induction n generalizing m k with
  | zero =>
    obtain ⟨i, hi, -⟩ := h
    exact absurd hi (Nat.not_lt_zero i)
  | succ n ih =>
    have hread : m.cell (s + k) = readAt mem d s k := by rw [hm, copied_source]
    rw [strncpyTraced]
    split
    · -- the terminator is copied and `n + 1` zeros follow
      exact (Traced.written_fill ..).2 (Or.inr (by omega))
    · rename_i hne
      obtain ⟨i, hi, hzero⟩ := h
      have hpos : i ≠ 0 := by
        rintro rfl
        exact hne (hread.trans hzero)
      have hnext := @ih (m.write (d + k) (m.cell (s + k))) (k + 1)
        (by rw [Traced.write, hread, hm, update_copied])
        ⟨i - 1, by omega, by rw [show k + 1 + (i - 1) = k + i by omega]; exact hzero⟩
      rwa [show d + k + (n + 1) = d + (k + 1) + n by omega]

/-- **When `strncpy` does what it is meant to**: the string is not shorter
than the count, and where the destination starts inside the bytes that
are copied, these repeat themselves from there on. -/
theorem strncpy_exact_iff (d n : ℕ) (hstr : IsStr mem s L) :
    CopiesExactly mem d s n L ↔
      n ≤ L ∧ (s < d → ∀ i < n, mem (s + i % (d - s)) = mem (s + i)) := by
  have hstart : (⟨mem, []⟩ : Traced UInt8).cell = copied mem d s 0 := by
    funext x
    exact (if_neg (by omega)).symm
  have hreads : (∀ i < n, readAt mem d s i = mem (s + i)) ↔
      (s < d → ∀ i < n, mem (s + i % (d - s)) = mem (s + i)) := by
    unfold readAt
    by_cases hsd : s < d
    · simp only [hsd, if_true, forall_const]
    · simp only [hsd, if_false, implies_true, false_imp_iff]
  rw [← hreads]
  constructor
  · intro h
    -- nothing is written past the end, so no terminator was read
    have hne : ∀ i < n, readAt mem d s i ≠ 0 := by
      intro i hi hzero
      have hpast := strncpyTraced_past (k := 0) (n := n) hstart ⟨i, hi, by rwa [Nat.zero_add]⟩
      exact absurd ((h.written _).1 hpast).2 (by omega)
    have hcell := (strncpyTraced_copied (k := 0) (n := n) hstart fun i hi => by
      rw [Nat.zero_add]
      exact hne i hi).1
    rw [cell_strncpyTraced, Nat.zero_add] at hcell
    have hbytes : ∀ i < n, readAt mem d s i = if i < L then mem (s + i) else 0 := by
      intro i hi
      rw [← h.bytes i hi, ← copied_target mem d s hi]
      exact (congrFun hcell (d + i)).symm
    have hle : n ≤ L := by
      by_contra hlt
      have hzero := hbytes L (by omega)
      rw [if_neg (Nat.lt_irrefl L)] at hzero
      exact hne L (by omega) hzero
    refine ⟨hle, fun i hi => ?_⟩
    rw [hbytes i hi, if_pos (by omega)]
  · rintro ⟨hle, hread⟩
    obtain ⟨hcell, hwritten⟩ := strncpyTraced_copied (k := 0) (n := n) hstart fun i hi => by
      rw [Nat.zero_add, hread i hi]
      exact hstr.bytes i (by omega)
    rw [cell_strncpyTraced, Nat.zero_add] at hcell
    refine ⟨fun x => ?_, fun i hi => ?_, fun x hx => ?_⟩
    · exact (hwritten x).trans (or_iff_right List.not_mem_nil)
    · rw [if_pos (by omega), ← hread i hi, ← copied_target mem d s hi]
      exact congrFun hcell (d + i)
    · exact (congrFun hcell x).trans (if_neg hx)

/-- The string `AB` at 200. -/
def shortString : ByteMem := fun x => if x = 200 then 65 else if x = 201 then 66 else 0

/-- Two bytes of it are copied exactly. -/
theorem strncpy_exact_iff_two : CopiesExactly shortString 100 200 2 2 :=
  (strncpy_exact_iff 100 2 ⟨by decide, by decide⟩).2 ⟨le_rfl, fun h => absurd h (by decide)⟩

/-- Of a name in a field of 31 bytes the byte behind the field is cleared. -/
theorem strncpy_clears_next :
    let mem : ByteMem := fun x => if x = 131 then 7 else shortString x
    IsStr mem 200 2 ∧ strncpy mem 100 200 31 131 = 0 ∧ ¬ CopiesExactly mem 100 200 31 2 := by
  intro mem
  have hcleared : strncpy mem 100 200 31 131 = 0 := by decide
  refine ⟨⟨by decide, by decide⟩, hcleared, fun h => ?_⟩
  have hkept := h.frame 131 (by omega)
  rw [hcleared] at hkept
  exact absurd hkept (by decide)

end Kos
