import Kos.Net.Wire
import Mathlib.Data.Nat.ModEq
/-!
# Net — the sum of a block

The 32-bit sum of a block is the sum of its words, as long as the block
is shorter than a frame can be. Folding the carries keeps the residue
modulo `2 ^ 16 - 1` and gives `0` to a sum of `0` only. So a checksum,
which is the complement of a folded sum, verifies against another sum
exactly if the two sums leave the same residue.
-/

namespace Kos

namespace Net

/-- The sum of the words of a block, an odd last byte counting as one. -/
def wordSum : List UInt8 → ℕ
  | [] => 0
  | [b] => b.toNat
  | lo :: hi :: rest => (word16 lo hi).toNat + wordSum rest

theorem wordSum_le : ∀ bytes : List UInt8, 2 * wordSum bytes ≤ 65535 * (bytes.length + 1)
  | [] => by simp [wordSum]
  | [b] => by
    have := b.toNat_lt
    simp only [wordSum, List.length_singleton]
    omega
  | lo :: hi :: rest => by
    have hword := (word16 lo hi).toNat_lt
    have ih := wordSum_le rest
    simp only [wordSum, List.length_cons]
    omega

/-- **Sums of blocks add up**, if the first has no odd byte. -/
theorem wordSum_append : ∀ {as : List UInt8} (bs : List UInt8), Even as.length →
    wordSum (as ++ bs) = wordSum as + wordSum bs
  | [], bs, _ => by rw [List.nil_append, wordSum, Nat.zero_add]
  | [_], _, h => absurd (show Even 1 from h) (by decide)
  | lo :: hi :: rest, bs, h => by
    have hrest : Even rest.length := by
      simpa [Nat.even_add_one] using h
    rw [List.cons_append, List.cons_append, wordSum, wordSum, wordSum_append bs hrest,
      Nat.add_assoc]

theorem sumWords_append : ∀ {sum : UInt32} {as : List UInt8} (bs : List UInt8), Even as.length →
    sumWords sum (as ++ bs) = sumWords (sumWords sum as) bs
  | _, [], _, _ => rfl
  | _, [_], _, h => absurd (show Even 1 from h) (by decide)
  | sum, lo :: hi :: rest, bs, h => by
    have hrest : Even rest.length := by
      simpa [Nat.even_add_one] using h
    rw [List.cons_append, List.cons_append, sumWords, sumWords, sumWords_append bs hrest]

/-- **The sum the code computes**, where it does not overflow. -/
theorem toNat_sumWords : ∀ {sum : UInt32} {bytes : List UInt8},
    sum.toNat + wordSum bytes < 2 ^ 32 → (sumWords sum bytes).toNat = sum.toNat + wordSum bytes
  | sum, [], _ => rfl
  | sum, [b], h => by
    rw [sumWords, UInt32.toNat_add, UInt8.toNat_toUInt32]
    exact Nat.mod_eq_of_lt h
  | sum, lo :: hi :: rest, h => by
    rw [wordSum, ← Nat.add_assoc] at h
    have hsum : (sum + (word16 lo hi).toUInt32).toNat = sum.toNat + (word16 lo hi).toNat := by
      rw [UInt32.toNat_add, UInt16.toNat_toUInt32]
      exact Nat.mod_eq_of_lt (Nat.lt_of_le_of_lt (Nat.le_add_right ..) h)
    rw [sumWords, toNat_sumWords (hsum ▸ h), hsum, wordSum, Nat.add_assoc]

/-! ## The carries -/

theorem carry_modEq (n : ℕ) : n % 2 ^ 16 + n / 2 ^ 16 ≡ n [MOD 65535] := by
  unfold Nat.ModEq
  omega

/-- What a round of the carry keeps: the residue, and whether the sum is
zero. -/
theorem foldCarry_invariant {P : ℕ → Prop} (hstep : ∀ n, P n → P (n % 2 ^ 16 + n / 2 ^ 16))
    (rounds : ℕ) {s : UInt32} (hs : P s.toNat) : P (foldCarry rounds s).toNat := by
  induction rounds generalizing s with
  | zero => exact hs
  | succ rounds ih =>
    rw [foldCarry]
    split
    · exact hs
    · refine ih ?_
      rw [toNat_carry]
      exact hstep _ hs

theorem foldSum_modEq (s : UInt32) : (foldSum s).toNat ≡ s.toNat [MOD 65535] :=
  foldCarry_invariant (P := fun n => n ≡ s.toNat [MOD 65535]) (fun n hn => (carry_modEq n).trans hn)
    2 (Nat.ModEq.refl _)

theorem foldSum_pos {s : UInt32} (hs : 0 < s.toNat) : 0 < (foldSum s).toNat :=
  foldCarry_invariant (P := fun n => 0 < n) (fun n hn => by omega) 2 hs

/-- **A folded sum is all ones** exactly if the sum is a multiple of that,
and not zero. -/
theorem foldSum_eq_ones_iff {s : UInt32} (hs : 0 < s.toNat) :
    foldSum s = 0xFFFF ↔ s.toNat % 65535 = 0 := by
  have hmod : (foldSum s).toNat % 65535 = s.toNat % 65535 := foldSum_modEq s
  have hpos := foldSum_pos hs
  have hlt := foldSum_lt s
  rw [← UInt32.toNat_inj, show (0xFFFF : UInt32).toNat = 65535 from rfl]
  omega

/-- The complement of a folded sum. -/
theorem toNat_complement (s : UInt32) :
    (~~~ foldSum s).toUInt16.toNat = 65535 - (foldSum s).toNat := by
  have hlt := foldSum_lt s
  rw [UInt32.toNat_toUInt16, UInt32.toNat_not]
  change (2 ^ 32 - 1 - (foldSum s).toNat) % 2 ^ 16 = _
  omega

/-- **When a checksum verifies.** The complement of a folded sum, added to
another sum, gives all ones exactly if the two sums agree modulo
`2 ^ 16 - 1`. -/
theorem verifies_iff {s total : UInt32} {other : ℕ}
    (htotal : total.toNat = other + (~~~ foldSum s).toUInt16.toNat) (hpos : 0 < other) :
    foldSum total = 0xFFFF ↔ other % 65535 = s.toNat % 65535 := by
  have hmod : (foldSum s).toNat % 65535 = s.toNat % 65535 := foldSum_modEq s
  have hlt := foldSum_lt s
  rw [foldSum_eq_ones_iff (by omega), htotal, toNat_complement]
  omega

/-! ## Addresses -/

/-- The words of an address have their bytes swapped, which modulo
`2 ^ 16 - 1` is a multiplication. -/
theorem wordSum_be32 (a : UInt32) : wordSum (be32 a) % 65535 = 256 * a.toNat % 65535 := by
  have ha := a.toNat_lt
  have h8 : (a >>> 8).toUInt8.toNat = a.toNat / 2 ^ 8 % 2 ^ 8 := toNat_byte a (by decide)
  have h16 : (a >>> 16).toUInt8.toNat = a.toNat / 2 ^ 16 % 2 ^ 8 := toNat_byte a (by decide)
  have h24 : (a >>> 24).toUInt8.toNat = a.toNat / 2 ^ 24 % 2 ^ 8 := toNat_byte a (by decide)
  have hsum : 256 * a.toNat = wordSum (be32 a) + 65535 *
      (65537 * (a.toNat / 2 ^ 24) + 256 * (a.toNat / 2 ^ 16 % 2 ^ 8) +
        a.toNat / 2 ^ 8 % 2 ^ 8) := by
    rw [be32, wordSum, wordSum, wordSum, toNat_word16, toNat_word16, h8, h16, h24,
      UInt32.toNat_toUInt8]
    omega
  rw [hsum, Nat.add_mul_mod_self_left]

/-- **Addresses with the same sum** are those that agree modulo
`2 ^ 16 - 1`. -/
theorem wordSum_be32_mod_eq_iff (a b : UInt32) :
    wordSum (be32 a) % 65535 = wordSum (be32 b) % 65535 ↔ a.toNat % 65535 = b.toNat % 65535 := by
  rw [wordSum_be32, wordSum_be32]
  omega

end Net

end Kos
