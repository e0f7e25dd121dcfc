import Mathlib.Data.Nat.Bitwise
/-!
# Common — machine words as naturals

A machine word of `w` bits is a natural below `2 ^ w`. Sums and
differences wrap, and a mask that keeps the high bits rounds down to a
multiple of a power of two. Everything the address arithmetic of a
kernel needs is read off these two facts, so the bitwise operators never
have to be unfolded elsewhere.
-/

namespace Kos

/-- The 64-bit sum. -/
def add64 (a b : ℕ) : ℕ := (a + b) % 2 ^ 64

/-- The 64-bit difference. -/
def sub64 (a b : ℕ) : ℕ := (a + (2 ^ 64 - b % 2 ^ 64)) % 2 ^ 64

/-- The 64-bit product. -/
def mul64 (a b : ℕ) : ℕ := (a * b) % 2 ^ 64

/-- The complement of `2 ^ k - 1` in 64 bits: the mask that clears the
`k` low bits. -/
def highMask (k : ℕ) : ℕ := 2 ^ 64 - 2 ^ k

theorem add64_lt (a b : ℕ) : add64 a b < 2 ^ 64 := Nat.mod_lt _ (by decide)

theorem sub64_lt (a b : ℕ) : sub64 a b < 2 ^ 64 := Nat.mod_lt _ (by decide)

theorem add64_of_lt {a b : ℕ} (h : a + b < 2 ^ 64) : add64 a b = a + b :=
  Nat.mod_eq_of_lt h

theorem sub64_of_le {a b : ℕ} (ha : a < 2 ^ 64) (h : b ≤ a) : sub64 a b = a - b := by
  unfold sub64
  omega

theorem mul64_of_lt {a b : ℕ} (h : a * b < 2 ^ 64) : mul64 a b = a * b :=
  Nat.mod_eq_of_lt h

/-- **Adding and taking away is the identity**, wherever the sum wrapped. -/
theorem sub64_add64_cancel {a b : ℕ} (ha : a < 2 ^ 64) : sub64 (add64 a b) b = a := by
  unfold sub64 add64
  omega

theorem add64_sub64_cancel {a b : ℕ} (ha : a < 2 ^ 64) : add64 (sub64 a b) b = a := by
  unfold sub64 add64
  omega

/-- **A mask of high bits rounds down.** -/
theorem land_two_pow_sub_two_pow {x k w : ℕ} (hx : x < 2 ^ w) (hk : k ≤ w) :
    x &&& (2 ^ w - 2 ^ k) = 2 ^ k * (x / 2 ^ k) := by
  have hmask : 2 ^ w - 2 ^ k = (2 ^ (w - k) - 1) <<< k := by
    rw [Nat.shiftLeft_eq, Nat.sub_mul, ← Nat.pow_add, Nat.sub_add_cancel hk, Nat.one_mul]
  refine Nat.eq_of_testBit_eq fun i => ?_
  rw [hmask, Nat.testBit_and, Nat.testBit_shiftLeft, Nat.testBit_two_pow_sub_one,
    Nat.mul_comm, ← Nat.shiftLeft_eq, Nat.testBit_shiftLeft, Nat.testBit_div_two_pow]
  by_cases hki : k ≤ i
  · rw [show i - k + k = i by omega]
    by_cases hi : i < w
    · simp [hki, show i - k < w - k by omega]
    · have hlt : x < 2 ^ i := lt_of_lt_of_le hx (Nat.pow_le_pow_right (by decide) (by omega))
      simp [Nat.testBit_lt_two_pow hlt]
  · simp [hki]

theorem land_highMask {x k : ℕ} (hx : x < 2 ^ 64) (hk : k ≤ 64) :
    x &&& highMask k = 2 ^ k * (x / 2 ^ k) :=
  land_two_pow_sub_two_pow hx hk

/-- **Joining low bits to a rounded word is addition.** -/
theorem two_pow_mul_lor {a b k : ℕ} (hb : b < 2 ^ k) : 2 ^ k * a ||| b = 2 ^ k * a + b :=
  (Nat.two_pow_add_eq_or_of_lt hb a).symm

/-- A rounded word with low bits joined rounds back to itself. -/
theorem lor_land_highMask {a b k : ℕ} (ha : 2 ^ k * a < 2 ^ 64) (hb : b < 2 ^ k)
    (hk : k ≤ 64) : (2 ^ k * a ||| b) &&& highMask k = 2 ^ k * a := by
  have hpos : 0 < 2 ^ k := Nat.two_pow_pos k
  have hpow : 2 ^ 64 = 2 ^ k * 2 ^ (64 - k) := by rw [← Nat.pow_add, Nat.add_sub_cancel' hk]
  have hlt : 2 ^ k * a + b < 2 ^ 64 := by
    have h1 : a < 2 ^ (64 - k) := by
      rw [hpow] at ha
      exact Nat.lt_of_mul_lt_mul_left ha
    calc 2 ^ k * a + b < 2 ^ k * a + 2 ^ k := by omega
      _ = 2 ^ k * (a + 1) := (Nat.mul_succ (2 ^ k) a).symm
      _ ≤ 2 ^ k * 2 ^ (64 - k) := Nat.mul_le_mul_left _ h1
      _ = 2 ^ 64 := hpow.symm
  rw [two_pow_mul_lor hb, land_highMask hlt hk, Nat.mul_add_div hpos, Nat.div_eq_of_lt hb,
    Nat.add_zero]

/-- Masking one bit tests it. -/
theorem land_two_pow_bne_zero (x k : ℕ) : (x &&& 2 ^ k != 0) = x.testBit k := by
  rw [Nat.and_two_pow]
  cases x.testBit k with
  | false => simp
  | true => simp

/-- A bit is set if the quotient is odd. -/
theorem land_two_pow_ne_zero_iff (n i : ℕ) : n &&& 2 ^ i ≠ 0 ↔ n / 2 ^ i % 2 = 1 := by
  rw [← bne_iff_ne, land_two_pow_bne_zero, Nat.testBit_eq_decide_div_mod_eq, decide_eq_true_eq]

/-- The low bits of a rounded word with low bits joined are those joined. -/
theorem testBit_two_pow_mul_lor {a b k j : ℕ} (hb : b < 2 ^ k) (hj : j < k) :
    (2 ^ k * a ||| b).testBit j = b.testBit j := by
  rw [two_pow_mul_lor hb, Nat.testBit_two_pow_mul_add a hb, if_pos hj]

/-- The low bits of a word of ones. -/
theorem two_pow_sub_one_mod {m n : ℕ} (h : m ≤ n) : (2 ^ n - 1) % 2 ^ m = 2 ^ m - 1 := by
  refine Nat.eq_of_testBit_eq fun j => ?_
  rw [Nat.testBit_mod_two_pow, Nat.testBit_two_pow_sub_one, Nat.testBit_two_pow_sub_one]
  by_cases hj : j < m
  · simp [hj, hj.trans_le h]
  · simp [hj]

/-- A word of ones, rounded down. -/
theorem two_pow_mul_div_sub_one (w k : ℕ) : 2 ^ k * ((2 ^ w - 1) / 2 ^ k) = 2 ^ w - 2 ^ k := by
  have hmod := Nat.div_add_mod (2 ^ w - 1) (2 ^ k)
  rcases Nat.lt_or_ge w k with hlt | hge
  · have hpow := Nat.pow_lt_pow_right (by decide : 1 < 2) hlt
    rw [Nat.div_eq_of_lt (by omega), Nat.mul_zero, Nat.sub_eq_zero_of_le hpow.le]
  · have hpos := Nat.two_pow_pos k
    have hle := Nat.pow_le_pow_right (by decide : 0 < 2) hge
    rw [two_pow_sub_one_mod hge] at hmod
    omega

/-- Bits below an aligned address do not reach over its width. -/
theorem add_lt_two_pow {a t k w : ℕ} (hk : k ≤ w) (hd : 2 ^ k ∣ a) (ha : a < 2 ^ w)
    (ht : t < 2 ^ k) : a + t < 2 ^ w := by
  obtain ⟨n, rfl⟩ := hd
  have hpow : 2 ^ w = 2 ^ k * 2 ^ (w - k) := by rw [← Nat.pow_add, Nat.add_sub_cancel' hk]
  rw [hpow] at ha ⊢
  have hn : n < 2 ^ (w - k) := Nat.lt_of_mul_lt_mul_left ha
  calc 2 ^ k * n + t < 2 ^ k * n + 2 ^ k := by omega
    _ = 2 ^ k * (n + 1) := (Nat.mul_succ ..).symm
    _ ≤ 2 ^ k * 2 ^ (w - k) := Nat.mul_le_mul_left _ hn

end Kos
