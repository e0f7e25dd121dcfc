import Kos.Common.Word
/-!
# Kernel — what `kernel.h` fixes for every subsystem

The page size, the direct map of physical memory into the higher half,
and the bitmap operations. A bitmap is an array of 64-bit words; each
operation has one lemma saying which bits it touches, and nothing above
this file looks at the words again.
-/

namespace Kos

/-- `PAGE_SIZE`. -/
abbrev pageSize : ℕ := 4096

/-- `HUGE_PAGE_SIZE`. -/
abbrev hugePageSize : ℕ := 2 * 1024 * 1024

/-- `PAGE_MASK`, which `~(PAGE_SIZE - 1)` sign-extends to 64 bits. -/
def pageMask : ℕ := highMask 12

/-- `KERNEL_HIGHER_HALF`. -/
def kernelHigherHalf : ℕ := 0xFFFF800000000000

/-- `PHYS_TO_VIRT`. -/
def physToVirt (p : ℕ) : ℕ := add64 p kernelHigherHalf

/-- `VIRT_TO_PHYS`. -/
def virtToPhys (v : ℕ) : ℕ := sub64 v kernelHigherHalf

/-- The direct map is undone by `VIRT_TO_PHYS`, also where it wraps. -/
theorem virtToPhys_physToVirt {p : ℕ} (hp : p < 2 ^ 64) : virtToPhys (physToVirt p) = p :=
  sub64_add64_cancel hp

theorem land_pageMask {x : ℕ} (hx : x < 2 ^ 64) : x &&& pageMask = pageSize * (x / pageSize) :=
  land_highMask hx (by decide)

/-! ## Bitmaps -/

/-- An array of 64-bit words. -/
abbrev Bitmap : Type := ℕ → BitVec 64

/-- `bitmap_set`. -/
def bitmapSet (bm : Bitmap) (bit : ℕ) : Bitmap :=
  Function.update bm (bit / 64) (bm (bit / 64) ||| (1#64 <<< (bit % 64)))

/-- `bitmap_clear`. -/
def bitmapClear (bm : Bitmap) (bit : ℕ) : Bitmap :=
  Function.update bm (bit / 64) (bm (bit / 64) &&& ~~~(1#64 <<< (bit % 64)))

/-- `bitmap_test`. -/
def bitmapTest (bm : Bitmap) (bit : ℕ) : Bool :=
  (bm (bit / 64) >>> (bit % 64)) &&& 1#64 != 0#64

/-- Testing a bit reads that bit of its word. -/
theorem bitmapTest_eq (bm : Bitmap) (bit : ℕ) :
    bitmapTest bm bit = (bm (bit / 64)).getLsbD (bit % 64) := by
  have hone : ∀ x : BitVec 64, (x &&& 1#64 != 0#64) = x.getLsbD 0 := by
    intro x
    rw [BitVec.and_one_eq_setWidth_ofBool_getLsbD]
    cases x.getLsbD 0 <;> rfl
  rw [bitmapTest, hone, BitVec.getLsbD_ushiftRight, Nat.add_zero]

/-- Two bits in one word at one place are one bit. -/
theorem bit_eq_iff {i j : ℕ} : i = j ↔ i / 64 = j / 64 ∧ i % 64 = j % 64 := by omega

private theorem getLsbD_one_shiftLeft {k i : ℕ} (hk : k < 64) :
    (1#64 <<< k).getLsbD i = decide (i = k) := by
  rw [BitVec.getLsbD_shiftLeft, BitVec.getLsbD_one]
  by_cases h : i = k
  · subst h; simp [hk]
  · have : ¬ (i - k = 0 ∧ ¬ i < k) := by omega
    by_cases h1 : i < k
    · simp [h, h1]
    · have h2 : i - k ≠ 0 := by omega
      simp [h, h2]

/-- **Setting a bit sets that bit and no other.** -/
@[simp] theorem bitmapTest_set (bm : Bitmap) (i j : ℕ) :
    bitmapTest (bitmapSet bm i) j = (decide (j = i) || bitmapTest bm j) := by
  rw [bitmapTest_eq, bitmapTest_eq, bitmapSet]
  by_cases hw : j / 64 = i / 64
  · rw [hw, Function.update_self, BitVec.getLsbD_or,
      getLsbD_one_shiftLeft (Nat.mod_lt _ (by decide)), Bool.or_comm]
    congr 1
    exact decide_eq_decide.2 ⟨fun h => bit_eq_iff.2 ⟨hw, h⟩, fun h => by rw [h]⟩
  · have hne : j ≠ i := fun h => hw (by rw [h])
    rw [Function.update_of_ne hw]
    simp [hne]

/-- **Clearing a bit clears that bit and no other.** -/
@[simp] theorem bitmapTest_clear (bm : Bitmap) (i j : ℕ) :
    bitmapTest (bitmapClear bm i) j = (bitmapTest bm j && !decide (j = i)) := by
  rw [bitmapTest_eq, bitmapTest_eq, bitmapClear]
  by_cases hw : j / 64 = i / 64
  · have hlt : j % 64 < 64 := Nat.mod_lt _ (by decide)
    rw [hw, Function.update_self, BitVec.getLsbD_and, BitVec.getLsbD_not,
      getLsbD_one_shiftLeft (Nat.mod_lt _ (by decide))]
    have heq : decide (j % 64 = i % 64) = decide (j = i) :=
      decide_eq_decide.2 ⟨fun h => bit_eq_iff.2 ⟨hw, h⟩, fun h => by rw [h]⟩
    simp [hlt, heq]
  · have hne : j ≠ i := fun h => hw (by rw [h])
    rw [Function.update_of_ne hw]
    simp [hne]

/-- A bitmap is its bits. -/
theorem bitmap_ext {bm bm' : Bitmap} (h : ∀ i, bitmapTest bm i = bitmapTest bm' i) : bm = bm' := by
  funext w
  refine BitVec.eq_of_getLsbD_eq fun i hi => ?_
  have hw : (64 * w + i) / 64 = w := by omega
  have hbit : (64 * w + i) % 64 = i := by omega
  have htest := h (64 * w + i)
  rwa [bitmapTest_eq, bitmapTest_eq, hw, hbit] at htest

/-- Clearing a bit that is clear changes nothing. -/
theorem bitmapClear_of_clear {bm : Bitmap} {i : ℕ} (h : bitmapTest bm i = false) :
    bitmapClear bm i = bm := by
  refine bitmap_ext fun j => ?_
  rw [bitmapTest_clear]
  by_cases hj : j = i
  · rw [hj, h, Bool.false_and]
  · rw [decide_eq_false hj, Bool.not_false, Bool.and_true]

/-- The bitmap `memset` to `0xFF` makes: every bit set. -/
def bitmapFull : Bitmap := fun _ => BitVec.allOnes 64

@[simp] theorem bitmapTest_full (i : ℕ) : bitmapTest bitmapFull i = true := by
  rw [bitmapTest_eq, bitmapFull, BitVec.getLsbD_allOnes]
  simp [Nat.mod_lt]

end Kos
