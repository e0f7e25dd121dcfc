import Mathlib.Data.Nat.Digits.Lemmas
import Kos.Console.Vga
/-!
# Console — numerals

`print_hex` and `print_dec`, and what a reader makes of the characters.
`print_dec` fills a buffer from the end, a digit at a time, and prints
from where it has stopped. A numeral is read by its digits, whatever
printed it, and what is read back is the number.
-/

namespace Kos

namespace Console

/-- `"0123456789ABCDEF"`. -/
def hexTable : List Character :=
  [0x30#8, 0x31#8, 0x32#8, 0x33#8, 0x34#8, 0x35#8, 0x36#8, 0x37#8, 0x38#8, 0x39#8,
    0x41#8, 0x42#8, 0x43#8, 0x44#8, 0x45#8, 0x46#8]

/-- `hex[d]`. -/
def hexDigit (d : ℕ) : Character := hexTable.getD d 0

/-- The characters of `print_hex`. -/
def printHex (val : BitVec 64) (digits : ℕ) : List Character :=
  (List.range digits).reverse.map fun i => hexDigit ((val >>> (i * 4)) &&& 0xF#64).toNat

/-- The loop of `print_dec` that fills the buffer. The first argument is
`i + 1`, so that it is zero where the test `i >= 0` fails. -/
def fillDec : ℕ → BitVec 64 → Traced Character → ℕ × Traced Character
  | 0, _, buf => (0, buf)
  | n + 1, val, buf =>
    if val = 0 then (n + 1, buf)
    else fillDec n (val / 10#64) (buf.write n ((0x30#64 + val % 10#64).setWidth 8))

/-- The characters of `print_dec`, and its buffer, which holds anything at
first. -/
def printDec (buf : Traced Character) (val : BitVec 64) : List Character × Traced Character :=
  let buf := buf.write 31 0
  if val = 0 then ([0x30#8], buf)
  else
    let p := fillDec 31 val buf
    ((List.range' p.1 (31 - p.1)).map p.2.cell, p.2)

/-! ## Reading a numeral -/

/-- The value of a digit. -/
def digitValue (c : Character) : Option ℕ :=
  if 0x30 ≤ c.toNat ∧ c.toNat ≤ 0x39 then some (c.toNat - 0x30)
  else if 0x41 ≤ c.toNat ∧ c.toNat ≤ 0x46 then some (c.toNat - 0x41 + 10)
  else none

/-- One digit more, in base `b`. -/
def readDigit (b n : ℕ) (c : Character) : Option ℕ :=
  (digitValue c).bind fun d => if d < b then some (n * b + d) else none

/-- The number a numeral stands for. -/
def parseNat (b : ℕ) (cs : List Character) : Option ℕ :=
  if cs = [] then none else cs.foldlM (readDigit b) 0

/-- The number a numeral with a sign stands for. -/
def parseInt : List Character → Option ℤ
  | 0x2D#8 :: cs => (parseNat 10 cs).map fun n => -(n : ℤ)
  | cs => (parseNat 10 cs).map fun n => (n : ℤ)

/-- The digits of the table are read as what they are. -/
theorem readDigit_hexDigit {b d : ℕ} (hb : b ≤ 16) (hd : d < b) (n : ℕ) :
    readDigit b n (hexDigit d) = some (n * b + d) := by
  have hvalue : digitValue (hexDigit d) = some d := by
    have hlt : d < 16 := by omega
    interval_cases d <;> rfl
  rw [readDigit, hvalue, Option.bind_some, if_pos hd]

/-- **Digits are read one after the other.** -/
theorem foldlM_readDigit {b : ℕ} (hb : b ≤ 16) {ds : List ℕ} (hds : ∀ d ∈ ds, d < b) (n : ℕ) :
    (ds.map hexDigit).foldlM (readDigit b) n =
      some (ds.foldl (fun n d => n * b + d) n) := by
  induction ds generalizing n with
  | nil => rfl
  | cons d ds ih =>
    obtain ⟨hd, hrest⟩ := List.forall_mem_cons.1 hds
    rw [List.map_cons, List.foldlM_cons, readDigit_hexDigit hb hd]
    exact ih hrest _

/-! ## Hexadecimal -/

theorem toNat_nibble (val : BitVec 64) (i : ℕ) :
    ((val >>> (i * 4)) &&& 0xF#64).toNat = val.toNat / 16 ^ i % 16 := by
  have hmask : (0xF#64).toNat = 2 ^ 4 - 1 := rfl
  rw [BitVec.toNat_and, BitVec.toNat_ushiftRight, hmask, Nat.and_two_pow_sub_one_eq_mod,
    Nat.shiftRight_eq_div_pow, Nat.mul_comm, Nat.pow_mul]

/-- The digits below `16 ^ k`, from the highest. -/
theorem foldl_hex (v k n : ℕ) :
    ((List.range k).reverse.map fun i => v / 16 ^ i % 16).foldl (fun n d => n * 16 + d) n =
      n * 16 ^ k + v % 16 ^ k := by
  induction k generalizing n with
  | zero => simp [Nat.mod_one]
  | succ k ih =>
    rw [List.range_succ, List.reverse_concat, List.map_cons, List.foldl_cons, ih, Nat.mod_pow_succ,
      Nat.pow_succ]
    ring

/-- **What `print_hex` prints is read as the number**, cut to as many
digits. -/
theorem parseNat_printHex (val : BitVec 64) {k : ℕ} (hk : 0 < k) :
    parseNat 16 (printHex val k) = some (val.toNat % 16 ^ k) := by
  have hdigits : printHex val k =
      ((List.range k).reverse.map fun i => val.toNat / 16 ^ i % 16).map
        hexDigit := by
    unfold printHex
    rw [List.map_map]
    exact List.map_congr_left fun i _ => by rw [toNat_nibble]; rfl
  have hne : printHex val k ≠ [] := by
    rw [← List.length_pos_iff]
    simpa [printHex] using hk
  have hlt : ∀ d ∈ (List.range k).reverse.map (fun i => val.toNat / 16 ^ i % 16), d < 16 := by
    intro d hd
    obtain ⟨i, -, rfl⟩ := List.mem_map.1 hd
    exact Nat.mod_lt _ (by decide)
  rw [parseNat, if_neg hne, hdigits, foldlM_readDigit (le_refl 16) hlt, foldl_hex, Nat.zero_mul,
    Nat.zero_add]

/-! ## Decimal -/

/-- The decimal digits of a number, from the highest; none for zero. -/
def decimal (v : ℕ) : List Character := (Nat.digits 10 v).reverse.map hexDigit

theorem decimal_of_pos {v : ℕ} (hv : 0 < v) :
    decimal v = decimal (v / 10) ++ [hexDigit (v % 10)] := by
  unfold decimal
  rw [Nat.digits_def' (by decide) hv, List.reverse_cons, List.map_append, List.map_singleton]

theorem decimal_zero : decimal 0 = [] := by
  unfold decimal
  rw [Nat.digits_zero]
  rfl

/-- The first digit is not a zero. -/
theorem decimal_eq_cons {v : ℕ} (hv : 0 < v) :
    ∃ d cs, 0 < d ∧ d < 10 ∧ decimal v = hexDigit d :: cs := by
  induction v using Nat.strongRecOn with
  | _ v ih =>
    rw [decimal_of_pos hv]
    rcases Nat.eq_zero_or_pos (v / 10) with hzero | hpos
    · rw [hzero, decimal_zero]
      exact ⟨v % 10, [], by omega, by omega, rfl⟩
    · obtain ⟨d, cs, hd, hlt, heq⟩ := ih (v / 10) (Nat.div_lt_self hv (by decide)) hpos
      rw [heq]
      exact ⟨d, cs ++ [hexDigit (v % 10)], hd, hlt, rfl⟩

/-- The digits of a number are read as the number. -/
theorem foldlM_decimal (v : ℕ) : (decimal v).foldlM (readDigit 10) 0 = some v := by
  induction v using Nat.strongRecOn with
  | _ v ih =>
    rcases Nat.eq_zero_or_pos v with rfl | hv
    · rw [decimal_zero]
      rfl
    · rw [decimal_of_pos hv, List.foldlM_append, ih (v / 10) (Nat.div_lt_self hv (by decide))]
      have hlast : readDigit 10 (v / 10) (hexDigit (v % 10)) = some v := by
        rw [readDigit_hexDigit (by decide) (Nat.mod_lt _ (by decide)), Nat.mul_comm,
          Nat.div_add_mod]
      simp [hlast]

theorem toNat_digit {d : ℕ} (hd : d < 10) :
    (0x30#64 + BitVec.ofNat 64 d).setWidth 8 = hexDigit d := by
  interval_cases d <;> rfl

/-- **The filling loop** puts the digits in front of what is there, and
stops at the first of them. -/
theorem fillDec_chars {n : ℕ} (val : BitVec 64) (buf : Traced Character) (hn : n ≤ 31)
    (hval : val.toNat < 10 ^ n) :
    (List.range' (fillDec n val buf).1 (31 - (fillDec n val buf).1)).map (fillDec n val buf).2.cell =
      decimal val.toNat ++ (List.range' n (31 - n)).map buf.cell := by
  induction n generalizing val buf with
  | zero =>
    have hzero : val.toNat = 0 := by omega
    rw [fillDec, hzero, decimal_zero]
    rfl
  | succ n ih =>
    rw [fillDec]
    by_cases hv : val = 0
    · rw [if_pos hv, hv]
      have hzero : BitVec.toNat (0 : BitVec 64) = 0 := rfl
      rw [hzero, decimal_zero]
      rfl
    · have hpos : 0 < val.toNat := Nat.pos_of_ne_zero fun h => hv (BitVec.eq_of_toNat_eq h)
      have hdiv : (val / 10#64).toNat = val.toNat / 10 := BitVec.toNat_udiv
      have hmod : val % 10#64 = BitVec.ofNat 64 (val.toNat % 10) :=
        BitVec.eq_of_toNat_eq (by
          rw [BitVec.toNat_umod, BitVec.toNat_ofNat]
          change val.toNat % 10 = val.toNat % 10 % 2 ^ 64
          omega)
      have hlt : (val / 10#64).toNat < 10 ^ n := by
        rw [hdiv, Nat.div_lt_iff_lt_mul (by decide), ← Nat.pow_succ]
        exact hval
      have hsplit : 31 - n = 31 - (n + 1) + 1 := by omega
      rw [if_neg hv, ih _ _ (by omega) hlt, hdiv, decimal_of_pos hpos, List.append_assoc, hmod,
        toNat_digit (Nat.mod_lt _ (by decide)), hsplit, List.range'_succ, List.map_cons,
        Traced.cell_write_self]
      -- the digits that are there are above the new one
      have habove : (List.range' (n + 1) (31 - (n + 1))).map
          (buf.write n (hexDigit (val.toNat % 10))).cell =
            (List.range' (n + 1) (31 - (n + 1))).map buf.cell :=
        List.map_congr_left fun i hi => Traced.cell_write_of_ne _ _ (by
          have hle := (List.mem_range'_1.1 hi).1
          omega)
      rw [habove]
      rfl

/-- **What `print_dec` prints**: the decimal digits, without leading zeros. -/
theorem printDec_chars (buf : Traced Character) (val : BitVec 64) :
    (printDec buf val).1 = if val = 0 then [0x30#8] else decimal val.toNat := by
  unfold printDec
  dsimp only
  by_cases hv : val = 0
  · rw [if_pos hv, if_pos hv]
  · have hlt : val.toNat < 10 ^ 31 := val.isLt.trans (by decide)
    rw [if_neg hv, if_neg hv]
    dsimp only
    rw [fillDec_chars val _ (le_refl 31) hlt]
    exact List.append_nil _

/-- What `print_dec` prints is read as the number. -/
theorem parseNat_printDec (buf : Traced Character) (val : BitVec 64) :
    parseNat 10 (printDec buf val).1 = some val.toNat := by
  rw [printDec_chars]
  split
  · next hv =>
    rw [hv]
    rfl
  · next hv =>
    have hpos : 0 < val.toNat := Nat.pos_of_ne_zero fun h => hv (BitVec.eq_of_toNat_eq h)
    have hne : decimal val.toNat ≠ [] := by
      obtain ⟨d, cs, -, -, heq⟩ := decimal_eq_cons hpos
      rw [heq]
      exact List.cons_ne_nil _ _
    rw [parseNat, if_neg hne, foldlM_decimal]

/-- A numeral without a sign is read the same with one allowed. -/
theorem parseInt_eq {cs : List Character} {n : ℕ} (h : parseNat 10 cs = some n) :
    parseInt cs = some (n : ℤ) := by
  unfold parseInt
  split
  · -- a sign is not a digit
    rw [parseNat, if_neg (List.cons_ne_nil _ _)] at h
    cases h
  · rw [h]
    rfl

end Console

end Kos
