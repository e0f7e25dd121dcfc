import Mathlib.Data.List.Sort
import Mathlib.Data.Nat.Bitwise
/-!
# Pit — waiting on the timer

`pit_wait` loads channel 0 of the timer with the number of ticks of a
delay and polls it. The counter goes down to 0 and wraps to `0xFFFF`,
and the loop ends at the first reading above the number it was loaded
with, so not before one tick more than that number. A delay of more
ticks than 16 bits hold is loaded cut to 16 bits.
-/

namespace Kos

namespace Pit

/-! ## The channel -/

/-- The counter, from the bytes written to `PIT_CH0`, the low one first. -/
def loaded (lo hi : BitVec 8) : BitVec 16 := hi ++ lo

/-- The counter `t` ticks after it was loaded with `c`. -/
def counterAt (c : BitVec 16) (t : ℕ) : BitVec 16 := c - BitVec.ofNat 16 t

/-- The bytes two reads of `PIT_CH0` give of a latched count, the low one
first. -/
def latchedBytes (v : BitVec 16) : BitVec 8 × BitVec 8 := (v.setWidth 8, (v >>> 8).setWidth 8)

/-! ## `pit_wait` -/

/-- `count`. The product is one of `uint32_t`, and its quotient is cut to
`uint16_t`. -/
def count (ms : BitVec 32) : BitVec 16 :=
  let count := ((1193182#32 * ms) / 1000#32).setWidth 16
  if count = 0 then 1 else count

/-- `current`, from the two bytes read. -/
def current (lo hi : BitVec 8) : BitVec 16 :=
  let current := (lo.setWidth 32 ||| (hi.setWidth 32 <<< 8)).setWidth 16
  -- `0x10000` is zero again in 16 bits
  if current = 0 then (0x10000#32).setWidth 16 else current

/-- The loop, over the ticks at which the counter is latched: the tick at
which it is left, and `none` where it goes on. -/
def poll (count c : BitVec 16) : ℕ → List ℕ → Option ℕ
  | now, [] => if count > 0 then none else some now
  | now, t :: ticks =>
    if count > 0 then
      let (lo, hi) := latchedBytes (counterAt c t)
      if current lo hi > count then some t else poll count c t ticks
    else some now

/-- `pit_wait`, with the counter latched at these ticks. -/
def pitWait (ms : BitVec 32) (ticks : List ℕ) : Option ℕ :=
  let count := count ms
  let lo := (count &&& 0xFF#16).setWidth 8
  let hi := ((count >>> 8) &&& 0xFF#16).setWidth 8
  poll count (loaded lo hi) 0 ticks

/-- **The wait is long enough** however often the counter is read. -/
def WaitsFor (ms : BitVec 32) : Prop :=
  ∀ ticks : List ℕ, ticks.SortedLE → ∀ t, pitWait ms ticks = some t →
    1193182 * ms.toNat / 1000 ≤ t

/-! ## The bytes -/

variable {c : BitVec 16} {ms : BitVec 32} {now t : ℕ} {ticks : List ℕ}

theorem loaded_bytes (c : BitVec 16) :
    loaded ((c &&& 0xFF#16).setWidth 8) (((c >>> 8) &&& 0xFF#16).setWidth 8) = c := by
  have hmask : ∀ x : BitVec 16, (x &&& 0xFF#16).toNat = x.toNat % 2 ^ 8 := fun x => by
    rw [BitVec.toNat_and]
    exact Nat.and_two_pow_sub_one_eq_mod _ 8
  refine BitVec.eq_of_toNat_eq ?_
  rw [loaded, BitVec.toNat_append, BitVec.toNat_setWidth, BitVec.toNat_setWidth, hmask, hmask,
    BitVec.toNat_ushiftRight, Nat.shiftRight_eq_div_pow,
    ← Nat.shiftLeft_add_eq_or_of_lt (Nat.mod_lt _ (by decide)), Nat.shiftLeft_eq]
  omega

/-- A count is read as it was latched; the test for zero changes nothing. -/
theorem current_latchedBytes (v : BitVec 16) :
    current (latchedBytes v).1 (latchedBytes v).2 = v := by
  have hbytes : (((v.setWidth 8).setWidth 32 : BitVec 32) |||
      (((v >>> 8).setWidth 8).setWidth 32 <<< 8)).setWidth 16 = v := by
    ext i hi
    simp only [BitVec.setWidth_or, Nat.reduceLeDiff, BitVec.setWidth_setWidth_of_le,
      BitVec.setWidth_shiftLeft_of_le, BitVec.getElem_or, BitVec.getElem_setWidth,
      BitVec.getLsbD_setWidth, BitVec.getElem_shiftLeft, BitVec.getLsbD_ushiftRight]
    grind
  unfold current latchedBytes
  dsimp only
  rw [hbytes]
  split
  · next h => exact h.symm
  · rfl

theorem toNat_counterAt (c : BitVec 16) (t : ℕ) :
    (counterAt c t).toNat = (c.toNat + (2 ^ 16 - t % 2 ^ 16)) % 2 ^ 16 := by
  rw [counterAt, BitVec.toNat_sub, BitVec.toNat_ofNat, Nat.add_comm]

/-! ## The loop -/

theorem pitWait_eq (ms : BitVec 32) (ticks : List ℕ) :
    pitWait ms ticks = poll (count ms) (count ms) 0 ticks := by
  unfold pitWait
  dsimp only
  rw [loaded_bytes]

theorem poll_cons (hc : 0 < c) (now t : ℕ) (ticks : List ℕ) :
    poll c c now (t :: ticks) = if counterAt c t > c then some t else poll c c t ticks := by
  rw [poll, if_pos hc]
  dsimp only
  rw [current_latchedBytes]

/-- A reading above the count is of a counter that has wrapped. -/
theorem lt_of_counterAt_gt (h : counterAt c t > c) : c.toNat < t := by
  rw [gt_iff_lt, BitVec.lt_def, toNat_counterAt] at h
  omega

/-- One tick after zero the reading is `0xFFFF`. -/
theorem counterAt_wrapped (h : c.toNat ≠ 2 ^ 16 - 1) : counterAt c (c.toNat + 1) > c := by
  have hlt := c.isLt
  rw [gt_iff_lt, BitVec.lt_def, toNat_counterAt]
  omega

/-- **The loop is left at a reading above the count.** -/
theorem gt_of_poll (hc : 0 < c) (h : poll c c now ticks = some t) : counterAt c t > c := by
  induction ticks generalizing now with
  | nil =>
    rw [poll, if_pos hc] at h
    cases h
  | cons u ticks ih =>
    rw [poll_cons hc] at h
    split at h
    · next hgt =>
      rw [← Option.some.inj h]
      exact hgt
    · exact ih h

/-! ## The delay -/

theorem toNat_count (ms : BitVec 32) :
    (count ms).toNat =
      if 1193182 * ms.toNat % 2 ^ 32 / 1000 % 2 ^ 16 = 0 then 1
      else 1193182 * ms.toNat % 2 ^ 32 / 1000 % 2 ^ 16 := by
  have hcut : (((1193182#32 * ms) / 1000#32).setWidth 16).toNat =
      1193182 * ms.toNat % 2 ^ 32 / 1000 % 2 ^ 16 := by
    rw [BitVec.toNat_setWidth, BitVec.toNat_udiv, BitVec.toNat_mul]
    rfl
  rw [← hcut, count]
  by_cases hzero : ((1193182#32 * ms) / 1000#32).setWidth 16 = 0
  · rw [if_pos hzero]
    exact (if_pos (congrArg BitVec.toNat hzero)).symm
  · rw [if_neg hzero]
    exact (if_neg fun h => hzero (BitVec.eq_of_toNat_eq h)).symm

theorem count_pos (ms : BitVec 32) : 0 < count ms := by
  rw [BitVec.lt_def, toNat_count]
  change 0 < _
  split <;> omega

/-- The counts of delays that fit 16 bits. -/
theorem toNat_count_of_le (h : ms.toNat ≤ 54) : 1193182 * ms.toNat / 1000 ≤ (count ms).toNat := by
  have hwrap : 1193182 * ms.toNat % 2 ^ 32 = 1193182 * ms.toNat := Nat.mod_eq_of_lt (by omega)
  have hcut : 1193182 * ms.toNat / 1000 % 2 ^ 16 = 1193182 * ms.toNat / 1000 :=
    Nat.mod_eq_of_lt (by omega)
  rw [toNat_count, hwrap, hcut]
  split <;> omega

/-- The delays whose count comes out as `0xFFFF`. -/
theorem toNat_count_eq_max :
    (count ms).toNat = 2 ^ 16 - 1 ↔ 65535000 ≤ 1193182 * ms.toNat % 2 ^ 32 % 65536000 := by
  have hdiv := Nat.mod_mul_right_div_self (1193182 * ms.toNat % 2 ^ 32) 1000 (2 ^ 16)
  have hlt := Nat.mod_lt (1193182 * ms.toNat % 2 ^ 32) (by decide : 65536000 > 0)
  rw [toNat_count, ← hdiv]
  generalize 1193182 * ms.toNat % 2 ^ 32 % 65536000 = x at hlt
  change (if x / 1000 = 0 then 1 else x / 1000) = 2 ^ 16 - 1 ↔ 65535000 ≤ x
  split <;> omega

/-- **When the wait is long enough**: the ticks of the delay fit 16 bits,
or what is left of them after the cuts is `0xFFFF`, which no reading is
above, so that the loop is never left. -/
theorem waitsFor_iff (ms : BitVec 32) :
    WaitsFor ms ↔
      ms.toNat ≤ 54 ∨ 65535000 ≤ 1193182 * ms.toNat % 2 ^ 32 % 65536000 := by
  have hpos := count_pos ms
  rw [← toNat_count_eq_max]
  constructor
  · intro h
    by_contra hcond
    rw [not_or] at hcond
    have hreturn : pitWait ms [(count ms).toNat + 1] = some ((count ms).toNat + 1) := by
      rw [pitWait_eq, poll_cons hpos, if_pos (counterAt_wrapped hcond.2)]
    have hle := h _ (List.pairwise_singleton _ _).sortedLE _ hreturn
    have hlt := (count ms).isLt
    omega
  · intro hcond ticks _ t hreturn
    rw [pitWait_eq] at hreturn
    have hgt := gt_of_poll hpos hreturn
    rcases hcond with hsmall | hfull
    · have hpassed := lt_of_counterAt_gt hgt
      have hcount := toNat_count_of_le hsmall
      omega
    · -- a count of ones is never exceeded
      have hread := (counterAt (count ms) t).isLt
      rw [gt_iff_lt, BitVec.lt_def] at hgt
      omega

/-- Of 55 milliseconds 90 ticks are left, where 65625 were asked for. -/
theorem pitWait_short :
    pitWait 55#32 [0, 89, 90] = some 90 ∧ 1193182 * (55#32).toNat / 1000 = 65625 ∧
      ¬ ∀ ms, WaitsFor ms := by
  have hreturn : pitWait 55#32 [0, 89, 90] = some 90 := by decide
  refine ⟨hreturn, by decide, fun h => ?_⟩
  exact absurd (h 55#32 _ (List.Pairwise.sortedLE (by decide)) 90 hreturn) (by decide)

end Pit

end Kos
