import Kos.Common.Ring
import Mathlib.Data.UInt
/-!
# Net — bytes on the wire

Header fields are stored in network order, which is what `htons` and
`htonl` make of a word on a little-endian machine; a checksum is stored
as the machine holds it. A checksum adds 16-bit words as the machine
reads them, so in little-endian order, an odd last byte counting as a
word of its own.
-/

namespace Kos

namespace Net

/-- A 16-bit field in network order. -/
def be16 (x : UInt16) : List UInt8 := [(x >>> 8).toUInt8, x.toUInt8]

/-- A 32-bit field in network order. -/
def be32 (x : UInt32) : List UInt8 :=
  [(x >>> 24).toUInt8, (x >>> 16).toUInt8, (x >>> 8).toUInt8, x.toUInt8]

/-- A 16-bit field as the machine stores it. -/
def le16 (x : UInt16) : List UInt8 := [x.toUInt8, (x >>> 8).toUInt8]

/-- The word of two bytes as the machine reads it. -/
def word16 (lo hi : UInt8) : UInt16 := lo.toUInt16 ||| (hi.toUInt16 <<< 8)

/-- Add the words of a block to a sum. -/
def sumWords (sum : UInt32) : List UInt8 → UInt32
  | [] => sum
  | [b] => sum + b.toUInt32
  | lo :: hi :: rest => sumWords (sum + (word16 lo hi).toUInt32) rest

/-- `while (sum >> 16) sum = (sum & 0xFFFF) + (sum >> 16)`, in at most the
given number of rounds. -/
def foldCarry : ℕ → UInt32 → UInt32
  | 0, sum => sum
  | n + 1, sum =>
    if sum >>> 16 = 0 then sum
    else foldCarry n ((sum &&& (0xFFFF : UInt32)) + (sum >>> 16))

/-- The folded sum; two rounds end the loop (`foldSum_lt`). -/
def foldSum (sum : UInt32) : UInt32 := foldCarry 2 sum

/-- `ip_checksum`. -/
def ipChecksum (data : List UInt8) : UInt16 := (~~~ foldSum (sumWords 0 data)).toUInt16

/-- One round of the carry, in numbers. -/
theorem toNat_carry (s : UInt32) :
    ((s &&& (0xFFFF : UInt32)) + (s >>> 16)).toNat = s.toNat % 2 ^ 16 + s.toNat / 2 ^ 16 := by
  have h := s.toNat_lt
  have hlow : (s &&& 0xFFFF).toNat = s.toNat % 2 ^ 16 := by
    rw [UInt32.toNat_and]
    exact Nat.and_two_pow_sub_one_eq_mod s.toNat 16
  have hhigh : (s >>> 16).toNat = s.toNat / 2 ^ 16 := by
    rw [UInt32.toNat_shiftRight]
    exact Nat.shiftRight_eq_div_pow s.toNat 16
  rw [UInt32.toNat_add, hlow, hhigh]
  omega

theorem shiftRight_eq_zero_iff (s : UInt32) : s >>> 16 = 0 ↔ s.toNat < 2 ^ 16 := by
  rw [← UInt32.toNat_inj, UInt32.toNat_shiftRight]
  have : s.toNat >>> ((16 : UInt32).toNat % 32) = s.toNat / 2 ^ 16 :=
    Nat.shiftRight_eq_div_pow s.toNat 16
  rw [this, show (0 : UInt32).toNat = 0 from rfl]
  omega

/-- **The loop is over after two rounds**: what is left has 16 bits. -/
theorem foldSum_lt (s : UInt32) : (foldSum s).toNat < 2 ^ 16 := by
  have h := s.toNat_lt
  simp only [foldSum, foldCarry, shiftRight_eq_zero_iff]
  split
  · assumption
  · split
    · assumption
    · rename_i h1 h2
      rw [toNat_carry, toNat_carry] at *
      omega

/-! ## Fields and bytes -/

/-- The word of two bytes, in numbers. -/
theorem toNat_word16 (lo hi : UInt8) : (word16 lo hi).toNat = lo.toNat + 2 ^ 8 * hi.toNat := by
  have hlo := lo.toNat_lt
  have hhi := hi.toNat_lt
  have hshift : hi.toNat <<< ((8 : UInt16).toNat % 16) % 2 ^ 16 = 2 ^ 8 * hi.toNat := by
    change hi.toNat <<< 8 % 2 ^ 16 = _
    rw [Nat.shiftLeft_eq]
    omega
  rw [word16, UInt16.toNat_or, UInt16.toNat_shiftLeft, UInt8.toNat_toUInt16, UInt8.toNat_toUInt16,
    Nat.or_comm, hshift, ← Nat.two_pow_add_eq_or_of_lt hlo]
  omega

/-- **A 16-bit field is read back from its bytes.** -/
theorem word16_split (x : UInt16) : word16 x.toUInt8 (x >>> 8).toUInt8 = x := by
  have hx := x.toNat_lt
  have hhi : (x >>> 8).toNat = x.toNat / 2 ^ 8 := by
    rw [UInt16.toNat_shiftRight]
    exact Nat.shiftRight_eq_div_pow x.toNat 8
  rw [← UInt16.toNat_inj, toNat_word16, UInt16.toNat_toUInt8, UInt16.toNat_toUInt8, hhi]
  omega

/-- The bytes of a 32-bit word, in numbers. -/
theorem toNat_byte (x : UInt32) {k : ℕ} (hk : k < 32) :
    (x >>> UInt32.ofNat k).toUInt8.toNat = x.toNat / 2 ^ k % 2 ^ 8 := by
  rw [UInt32.toNat_toUInt8, UInt32.toNat_shiftRight,
    UInt32.toNat_ofNat_of_lt' (hk.trans (by decide)), Nat.mod_eq_of_lt hk,
    Nat.shiftRight_eq_div_pow]

/-- The halves of a 32-bit word, in numbers. -/
theorem toNat_halves (x : UInt32) :
    (word16 x.toUInt8 (x >>> 8).toUInt8).toNat = x.toNat % 2 ^ 16 ∧
      (word16 (x >>> 16).toUInt8 (x >>> 24).toUInt8).toNat = x.toNat / 2 ^ 16 := by
  have hx := x.toNat_lt
  have h8 : (x >>> 8).toUInt8.toNat = x.toNat / 2 ^ 8 % 2 ^ 8 := toNat_byte x (by decide)
  have h16 : (x >>> 16).toUInt8.toNat = x.toNat / 2 ^ 16 % 2 ^ 8 := toNat_byte x (by decide)
  have h24 : (x >>> 24).toUInt8.toNat = x.toNat / 2 ^ 24 % 2 ^ 8 := toNat_byte x (by decide)
  constructor
  · rw [toNat_word16, UInt32.toNat_toUInt8, h8]
    omega
  · rw [toNat_word16, h16, h24]
    omega

/-- **A 32-bit field is read back from its halves**, each read from its
bytes. -/
theorem word32_split (x : UInt32) :
    ((word16 (x >>> 16).toUInt8 (x >>> 24).toUInt8).toUInt32 <<< 16) |||
      (word16 x.toUInt8 (x >>> 8).toUInt8).toUInt32 = x := by
  have hx := x.toNat_lt
  obtain ⟨hlow, hhigh⟩ := toNat_halves x
  have hshift : ((word16 (x >>> 16).toUInt8 (x >>> 24).toUInt8).toUInt32 <<< 16).toNat =
      2 ^ 16 * (x.toNat / 2 ^ 16) := by
    rw [UInt32.toNat_shiftLeft, UInt16.toNat_toUInt32, hhigh]
    change (x.toNat / 2 ^ 16) <<< 16 % 2 ^ 32 = _
    rw [Nat.shiftLeft_eq]
    omega
  rw [← UInt32.toNat_inj, UInt32.toNat_or, hshift, UInt16.toNat_toUInt32, hlow,
    ← Nat.two_pow_add_eq_or_of_lt (Nat.mod_lt _ (by decide))]
  omega

end Net

end Kos
