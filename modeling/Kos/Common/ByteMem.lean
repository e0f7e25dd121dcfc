import Mathlib.Data.Nat.Bitwise
/-!
# Common — byte-addressed memory

A memory is a byte at every address. Words are read and written in
little-endian order, so a word at an address and the bytes under it are
one row of bits: bit `k` of memory is bit `k % 8` of byte `k / 8`, and a
word of `n` bytes at `a` holds the bits from `8 * a` on. Every law of
words is read off the law of bits.
-/

namespace Kos

/-- A memory. -/
abbrev ByteMem : Type := ℕ → UInt8

namespace ByteMem

variable {m m' : ByteMem} {a b n k v : ℕ}

/-- The little-endian word of `n` bytes at `a`. -/
def load (m : ByteMem) (a : ℕ) : ℕ → ℕ
  | 0 => 0
  | n + 1 => (m a).toNat + 256 * load m (a + 1) n

/-- Write the `n` low bytes of `v` at `a`. -/
def store (m : ByteMem) (a n v : ℕ) : ByteMem :=
  fun x => if a ≤ x ∧ x < a + n then UInt8.ofNat (v / 256 ^ (x - a)) else m x

/-- `memset`: every byte of a range set to `c`. -/
def fill (m : ByteMem) (a n : ℕ) (c : UInt8) : ByteMem :=
  fun x => if a ≤ x ∧ x < a + n then c else m x

/-- Copy `n` bytes from `b` to `a`, as a structure assignment does. -/
def copy (m : ByteMem) (a b n : ℕ) : ByteMem :=
  fun x => if a ≤ x ∧ x < a + n then m (x - a + b) else m x

/-- A bit of memory. -/
def bit (m : ByteMem) (k : ℕ) : Bool := (m (k / 8)).toNat.testBit (k % 8)

theorem store_of_not_mem {x : ℕ} (h : ¬ (a ≤ x ∧ x < a + n)) : m.store a n v x = m x :=
  if_neg h

theorem fill_of_not_mem {x : ℕ} {c : UInt8} (h : ¬ (a ≤ x ∧ x < a + n)) :
    m.fill a n c x = m x :=
  if_neg h

theorem copy_of_not_mem {x : ℕ} (h : ¬ (a ≤ x ∧ x < a + n)) : m.copy a b n x = m x :=
  if_neg h

/-- A word is read off its own bytes. -/
theorem load_congr (h : ∀ x, a ≤ x → x < a + n → m x = m' x) : m.load a n = m'.load a n := by
  induction n generalizing a with
  | zero => rfl
  | succ n ih =>
    have hrest : m.load (a + 1) n = m'.load (a + 1) n :=
      ih fun x h1 h2 => h x (by omega) (by omega)
    rw [load, load, h a le_rfl (by omega), hrest]

/-- A word has no more bits than its bytes. -/
theorem load_lt (m : ByteMem) (a n : ℕ) : m.load a n < 2 ^ (8 * n) := by
  induction n generalizing a with
  | zero => exact Nat.one_pos
  | succ n ih =>
    have hbyte : (m a).toNat < 2 ^ 8 := (m a).toNat_lt
    have hrest := ih (a + 1)
    have hpow : 2 ^ (8 * (n + 1)) = 256 * 2 ^ (8 * n) := by rw [Nat.mul_add, Nat.pow_add]; omega
    rw [load, hpow]
    omega

/-- Writing elsewhere leaves a word alone. -/
theorem load_store_of_disjoint {j : ℕ} (h : a + n ≤ b ∨ b + j ≤ a) :
    (m.store b j v).load a n = m.load a n :=
  load_congr fun x _ _ => store_of_not_mem (by omega)

/-! ## Bits -/

/-- **The bits of a word are the bits of memory under it.** -/
theorem testBit_load (m : ByteMem) (a n k : ℕ) :
    (m.load a n).testBit k = (decide (k < 8 * n) && m.bit (8 * a + k)) := by
  induction n generalizing a k with
  | zero => simp [load]
  | succ n ih =>
    have hbyte : (m a).toNat < 2 ^ 8 := (m a).toNat_lt
    rw [load, Nat.add_comm, show (256 : ℕ) = 2 ^ 8 from rfl, Nat.testBit_two_pow_mul_add _ hbyte]
    by_cases hk : k < 8
    · have h1 : (8 * a + k) / 8 = a := by omega
      have h2 : (8 * a + k) % 8 = k := by omega
      rw [if_pos hk, bit, h1, h2, decide_eq_true (by omega : k < 8 * (n + 1)), Bool.true_and]
    · have h1 : 8 * (a + 1) + (k - 8) = 8 * a + k := by omega
      rw [if_neg hk, ih, h1]
      congr 1
      exact decide_eq_decide.2 (by omega)

private theorem testBit_byte (v i j : ℕ) (hj : j < 8) :
    (UInt8.ofNat (v / 256 ^ i)).toNat.testBit j = v.testBit (8 * i + j) := by
  have hpow : (256 : ℕ) ^ i = 2 ^ (8 * i) := by rw [Nat.pow_mul]
  rw [UInt8.toNat_ofNat', show 2 ^ 8 = 256 from rfl, show (256 : ℕ) = 2 ^ 8 from rfl,
    Nat.testBit_mod_two_pow, ← show (256 : ℕ) = 2 ^ 8 from rfl, hpow, Nat.testBit_div_two_pow,
    decide_eq_true hj, Bool.true_and, Nat.add_comm]

/-- **The bits a word store writes.** -/
theorem bit_store (m : ByteMem) (a n v k : ℕ) :
    (m.store a n v).bit k =
      if 8 * a ≤ k ∧ k < 8 * (a + n) then v.testBit (k - 8 * a) else m.bit k := by
  by_cases h : a ≤ k / 8 ∧ k / 8 < a + n
  · have h1 : 8 * a ≤ k ∧ k < 8 * (a + n) := by omega
    have h2 : 8 * (k / 8 - a) + k % 8 = k - 8 * a := by omega
    rw [if_pos h1, bit, store, if_pos h, testBit_byte _ _ _ (Nat.mod_lt _ (by decide)), h2]
  · have h1 : ¬ (8 * a ≤ k ∧ k < 8 * (a + n)) := by omega
    rw [if_neg h1, bit, bit, store_of_not_mem h]

theorem bit_fill_of_not_mem {c : UInt8} (h : ¬ (8 * a ≤ k ∧ k < 8 * (a + n))) :
    (m.fill a n c).bit k = m.bit k := by
  have hx : ¬ (a ≤ k / 8 ∧ k / 8 < a + n) := by omega
  rw [bit, bit, fill_of_not_mem hx]

/-- Filling with `0xFF` sets every bit of the range and no other. -/
theorem bit_fill_ones (m : ByteMem) (a n k : ℕ) :
    (m.fill a n 0xFF).bit k = (decide (8 * a ≤ k ∧ k < 8 * (a + n)) || m.bit k) := by
  by_cases h : 8 * a ≤ k ∧ k < 8 * (a + n)
  · have hx : a ≤ k / 8 ∧ k / 8 < a + n := by omega
    have hall : ∀ j < 8, (255 : ℕ).testBit j = true := by decide
    rw [bit, fill, if_pos hx, decide_eq_true h, Bool.true_or]
    exact hall _ (Nat.mod_lt _ (by decide))
  · rw [bit_fill_of_not_mem h, decide_eq_false h, Bool.false_or]

theorem bit_fill_zero (h : 8 * a ≤ k ∧ k < 8 * (a + n)) : (m.fill a n 0).bit k = false := by
  have hx : a ≤ k / 8 ∧ k / 8 < a + n := by omega
  rw [bit, fill, if_pos hx]
  exact Nat.zero_testBit _

/-- **A memory is its bits.** -/
theorem ext_bit (h : ∀ k, m.bit k = m'.bit k) : m = m' := by
  funext x
  refine UInt8.toNat_inj.1 (Nat.eq_of_testBit_eq fun j => ?_)
  by_cases hj : j < 8
  · have hbyte : (8 * x + j) / 8 = x := by omega
    have hbit : (8 * x + j) % 8 = j := by omega
    have hk := h (8 * x + j)
    rwa [bit, bit, hbyte, hbit] at hk
  · have hpow : 2 ^ 8 ≤ 2 ^ j := Nat.pow_le_pow_right (by decide) (by omega)
    rw [Nat.testBit_lt_two_pow ((m x).toNat_lt.trans_le hpow),
      Nat.testBit_lt_two_pow ((m' x).toNat_lt.trans_le hpow)]

/-- **Setting bits one after another sets the whole run.** -/
theorem bit_foldl_set {f : ByteMem → ℕ → ByteMem}
    (hf : ∀ m j k, (f m j).bit k = (decide (k = a + j) || m.bit k)) (m : ByteMem) (n k : ℕ) :
    ((List.range n).foldl f m).bit k = (decide (a ≤ k ∧ k < a + n) || m.bit k) := by
  induction n with
  | zero => simp
  | succ n ih =>
    rw [List.range_succ, List.foldl_append, List.foldl_cons, List.foldl_nil, hf, ih,
      ← Bool.or_assoc, ← Bool.decide_or]
    congr 1
    exact decide_eq_decide.2 (by omega)

/-! ## Words -/

/-- **What was stored is what is loaded.** -/
theorem load_store (m : ByteMem) (a n v : ℕ) : (m.store a n v).load a n = v % 2 ^ (8 * n) := by
  refine Nat.eq_of_testBit_eq fun k => ?_
  rw [testBit_load, bit_store, Nat.testBit_mod_two_pow]
  by_cases hk : k < 8 * n
  · rw [if_pos (by omega), Nat.add_sub_cancel_left]
  · rw [decide_eq_false hk, Bool.false_and, Bool.false_and]

theorem load_store_of_lt (h : v < 2 ^ (8 * n)) : (m.store a n v).load a n = v := by
  rw [load_store, Nat.mod_eq_of_lt h]

/-- **Equal words have equal bytes.** -/
theorem eq_of_load_eq (h : m.load a n = m'.load a n) {x : ℕ} (h1 : a ≤ x) (h2 : x < a + n) :
    m x = m' x := by
  induction n generalizing a with
  | zero => omega
  | succ n ih =>
    have hlt := (m a).toNat_lt
    have hlt' := (m' a).toNat_lt
    simp only [load] at h
    rcases Nat.eq_or_lt_of_le h1 with rfl | hlow
    · exact UInt8.toNat_inj.1 (by omega)
    · have hrest : m.load (a + 1) n = m'.load (a + 1) n := by omega
      exact ih hrest hlow (by omega)

/-- Storing the word another memory holds makes its bytes those of the
other memory. -/
theorem store_eq_of_load (h : m'.load a n = v) {x : ℕ} (h1 : a ≤ x) (h2 : x < a + n) :
    m.store a n v x = m' x := by
  have hlt : v < 2 ^ (8 * n) := h ▸ load_lt m' a n
  exact eq_of_load_eq ((load_store_of_lt hlt).trans h.symm) h1 h2

/-! ## Fields -/

/-- A field: where it is, how many bytes it has, and what it holds. -/
abbrev Field : Type := ℕ × ℕ × ℕ

/-- The fields have no byte in common. -/
def Field.Apart (f g : Field) : Prop := f.1 + f.2.1 ≤ g.1 ∨ g.1 + g.2.1 ≤ f.1

/-- Write fields one after another. -/
def stores (m : ByteMem) (fs : List Field) : ByteMem :=
  fs.foldl (fun m f => m.store f.1 f.2.1 f.2.2) m

theorem load_stores_of_apart {fs : List Field} (h : ∀ f ∈ fs, Field.Apart f (a, n, v)) :
    (m.stores fs).load a n = m.load a n := by
  induction fs generalizing m with
  | nil => rfl
  | cons f fs ih =>
    rw [List.forall_mem_cons] at h
    exact (ih h.2).trans (load_store_of_disjoint h.1.symm)

theorem stores_of_not_mem {fs : List Field} {x : ℕ}
    (h : ∀ f ∈ fs, ¬ (f.1 ≤ x ∧ x < f.1 + f.2.1)) : m.stores fs x = m x := by
  induction fs generalizing m with
  | nil => rfl
  | cons f fs ih =>
    rw [List.forall_mem_cons] at h
    exact (ih h.2).trans (store_of_not_mem h.1)

/-- **Fields that lie apart are all there** when the last is written. -/
theorem load_stores {fs : List Field} (happart : fs.Pairwise Field.Apart) (hmem : (a, n, v) ∈ fs)
    (hlt : v < 2 ^ (8 * n)) : (m.stores fs).load a n = v := by
  induction fs generalizing m with
  | nil => cases hmem
  | cons f fs ih =>
    rw [List.pairwise_cons] at happart
    rcases List.mem_cons.1 hmem with rfl | hrest
    · have hlater : ∀ g ∈ fs, Field.Apart g (a, n, v) := fun g hg => (happart.1 g hg).symm
      exact (load_stores_of_apart hlater).trans (load_store_of_lt hlt)
    · exact ih happart.2 hrest

end ByteMem

end Kos
