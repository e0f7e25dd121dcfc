import Kos.Console.Printf
/-!
# Console — what a numeral says

Digit by digit, `print_dec` and `print_hex` print the number they are
given. `kvprintf` gives `print_dec` an `int`, which becomes a `uint64_t`
on the way, so of the numbers `%d` is for it prints half.
-/

namespace Kos

namespace Console

variable {a : Args} {fmt : List Character} {k : ℕ}

/-! ## `print_dec` -/

/-- The places of its buffer `print_dec` reads: from where it has stopped
to the terminator. -/
def decReads (buf : Traced Character) (val : BitVec 64) : List ℕ :=
  if val = 0 then []
  else
    let i := (fillDec 31 val (buf.write 31 0)).1
    List.range' i (31 - i)

/-- What is printed is what is read. -/
theorem printDec_reads (buf : Traced Character) {val : BitVec 64} (hv : val ≠ 0) :
    (printDec buf val).1 = (decReads buf val).map (printDec buf val).2.cell := by
  rw [decReads, if_neg hv, printDec]
  dsimp only
  rw [if_neg hv]

/-- The filling loop stays below where it starts. -/
theorem fillDec_below (n : ℕ) (val : BitVec 64) (buf : Traced Character) (hn : n ≤ 32) :
    (fillDec n val buf).1 ≤ n ∧ Traced.Within 32 buf (fillDec n val buf).2 := by
  induction n generalizing val buf with
  | zero => exact ⟨le_rfl, Traced.Within.refl 32 buf⟩
  | succ n ih =>
    rw [fillDec]
    split
    · exact ⟨le_rfl, Traced.Within.refl 32 buf⟩
    · obtain ⟨hle, hwithin⟩ := ih (val / 10#64)
        (buf.write n ((0x30#64 + val % 10#64).setWidth 8)) (by omega)
      exact ⟨by omega, (Traced.Within.write buf _ (by omega)).trans hwithin⟩

/-- **`print_dec` stays inside its buffer**, where it writes and where it
reads. -/
theorem printDec_inside (buf : Traced Character) (val : BitVec 64) :
    Traced.Within 32 buf (printDec buf val).2 ∧ ∀ i ∈ decReads buf val, i < 32 := by
  have hend : Traced.Within 32 buf (buf.write 31 0) := Traced.Within.write buf 0 (by decide)
  obtain ⟨hle, hwithin⟩ := fillDec_below 31 val (buf.write 31 0) (by decide)
  constructor
  · unfold printDec
    dsimp only
    split
    · exact hend
    · exact hend.trans hwithin
  · intro i hi
    unfold decReads at hi
    split at hi
    · cases hi
    · have hlt := (List.mem_range'_1.1 hi).2
      omega

/-- **The decimal digits**: those of the number, the first of them no zero
unless the number is, written and read back within the buffer. -/
structure DecFaithful (buf : Traced Character) (val : BitVec 64) : Prop where
  digits : (printDec buf val).1 =
    if val = 0 then [ch '0'] else (Nat.digits 10 val.toNat).reverse.map hexDigit
  leading : val ≠ 0 → (printDec buf val).1.head? ≠ some (ch '0')
  value : parseNat 10 (printDec buf val).1 = some val.toNat
  writes : Traced.Within 32 buf (printDec buf val).2
  shown : val ≠ 0 → (printDec buf val).1 = (decReads buf val).map (printDec buf val).2.cell
  reads : ∀ i ∈ decReads buf val, i < 32

theorem decFaithful (buf : Traced Character) (val : BitVec 64) : DecFaithful buf val := by
  obtain ⟨hwrites, hreads⟩ := printDec_inside buf val
  refine ⟨printDec_chars buf val, fun hv => ?_, parseNat_printDec buf val, hwrites,
    fun hv => printDec_reads buf hv, hreads⟩
  have hpos : 0 < val.toNat := Nat.pos_of_ne_zero fun h => hv (BitVec.eq_of_toNat_eq h)
  obtain ⟨d, cs, hd, hlt, heq⟩ := decimal_eq_cons hpos
  rw [printDec_chars, if_neg hv, heq, List.head?_cons]
  interval_cases d <;> decide

/-! ## `print_hex` -/

/-- **The hexadecimal digits**: as many as asked for, each the digit of the
number at its place. -/
structure HexFaithful (val : BitVec 64) (digits : ℕ) : Prop where
  length : (printHex val digits).length = digits
  digit : ∀ i < digits, (printHex val digits)[digits - 1 - i]? =
    some (hexDigit (val.toNat % 16 ^ digits / 16 ^ i % 16))

theorem hexFaithful (val : BitVec 64) (digits : ℕ) : HexFaithful val digits := by
  have hlength : (printHex val digits).length = digits := by
    rw [printHex, List.length_map, List.length_reverse, List.length_range]
  refine ⟨hlength, fun i hi => ?_⟩
  have hplace : (List.range digits).reverse[digits - 1 - i]? = some i := by
    rw [List.getElem?_reverse (by rw [List.length_range]; omega), List.length_range,
      show digits - 1 - (digits - 1 - i) = i by omega, List.getElem?_range hi]
  -- the digits above the last that is printed do not reach down to it
  have hcut : val.toNat % 16 ^ digits / 16 ^ i % 16 = val.toNat / 16 ^ i % 16 := by
    have hpow : 16 ^ digits = 16 ^ i * 16 ^ (digits - i) := by
      rw [← Nat.pow_add]
      congr 1
      omega
    have hdvd : 16 ∣ 16 ^ (digits - i) := dvd_pow_self 16 (by omega)
    rw [hpow, Nat.mod_mul_right_div_self, Nat.mod_mod_of_dvd _ hdvd]
  rw [printHex, List.getElem?_map, hplace, Option.map_some, toNat_nibble, hcut]

/-! ## `%d` -/

/-- The characters for the next `%d` stand for its argument. -/
def SignedFaithful (a : Args) (fmt : List Character) (k : ℕ) : Prop :=
  ∃ cs, kvprintf a (ch '%' :: ch 'd' :: fmt) k = emit (.arg k cs) (kvprintf a fmt (k + 1)) ∧
    parseInt cs = some ((a.slot k).setWidth 32).toInt

/-- **`%d` prints its argument exactly if that is not below zero.** -/
theorem signedFaithful_iff (a : Args) (fmt : List Character) (k : ℕ) :
    SignedFaithful a fmt k ↔ ¬ ((a.slot k).setWidth 32).toInt < 0 := by
  have hstep : kvprintf a (ch '%' :: ch 'd' :: fmt) k =
      emit (.arg k (printDec a.stack (intArg (a.slot k))).1) (kvprintf a fmt (k + 1)) :=
    @kvprintf_supported a ⟨false, 0, .none, .d⟩ fmt k ⟨rfl, rfl, by decide⟩
  rw [← parseInt_intArg a.stack (a.slot k)]
  constructor
  · rintro ⟨cs, heq, hparse⟩
    rw [hstep] at heq
    obtain ⟨hhead, -⟩ := List.cons.inj (congrArg Prod.fst heq)
    rw [(Printed.arg.inj hhead).2]
    exact hparse
  · exact fun h => ⟨_, hstep, h⟩

/-- **The numbers are printed faithfully**: a `uint64_t` in decimal and in
8 or 16 hexadecimal digits, and an `int` by `%d`. -/
structure NumbersFaithful (a : Args) (val : BitVec 64) (fmt : List Character) (k : ℕ) : Prop where
  dec : DecFaithful a.stack val
  hex : ∀ digits, digits = 8 ∨ digits = 16 → HexFaithful val digits
  signed : SignedFaithful a fmt k

/-- **When they are**: always, but for a number below zero. -/
theorem numbersFaithful_iff (a : Args) (val : BitVec 64) (fmt : List Character) (k : ℕ) :
    NumbersFaithful a val fmt k ↔ ¬ ((a.slot k).setWidth 32).toInt < 0 := by
  rw [← signedFaithful_iff a fmt k]
  exact ⟨fun h => h.signed,
    fun h => ⟨decFaithful a.stack val, fun digits _ => hexFaithful val digits, h⟩⟩

/-- The argument -1. -/
def minusOne : Args := ⟨fun _ => 0xFFFFFFFF#64, fun _ => [], ⟨fun _ => 0, []⟩⟩

/-- For -1 `%d` prints `18446744073709551615`. -/
theorem printf_minusOne :
    kvprintf minusOne [ch '%', ch 'd'] 0 =
        ([.arg 0 [ch '1', ch '8', ch '4', ch '4', ch '6', ch '7', ch '4', ch '4', ch '0', ch '7',
          ch '3', ch '7', ch '0', ch '9', ch '5', ch '5', ch '1', ch '6', ch '1', ch '5']], 1) ∧
      ¬ ∀ a val fmt k, NumbersFaithful a val fmt k := by
  refine ⟨by decide, fun h => ?_⟩
  exact (signedFaithful_iff minusOne [] 0).1 (h minusOne 0 [] 0).signed (by decide)

end Console

end Kos
