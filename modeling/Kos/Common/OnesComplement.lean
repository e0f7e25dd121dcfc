import Mathlib.Data.Nat.ModEq
import Mathlib.Algebra.Order.BigOperators.Group.List
/-!
# Common — ones' complement sums

Words below a base `B` are added with the carry brought around: what
goes over the base comes back as a one. Such a sum is known by its
residue modulo `B - 1` and by whether it is zero, since `0` and `B - 1`
are the only words with the same residue. Adding up in wider numbers and
folding the carries at the end gives the same word.
-/

namespace Kos

namespace OnesComplement

variable {B a b m n : ℕ}

/-- Add two words; the carry comes around. -/
def add (B a b : ℕ) : ℕ := if a + b < B then a + b else a + b - (B - 1)

/-- The sum of words. -/
def sum (B : ℕ) (words : List ℕ) : ℕ := words.foldl (add B) 0

/-- One round of folding: the carries are added to the word below them. -/
def carry (B n : ℕ) : ℕ := n % B + n / B

/-- The word that stands for a number: of its residue, and zero for zero
only. -/
def reduce (B n : ℕ) : ℕ := if n = 0 then 0 else (n - 1) % (B - 1) + 1

/-- **A word stands for a number**: it has the residue of the number, and
they are zero together. -/
structure Stands (B m n : ℕ) : Prop where
  residue : m ≡ n [MOD B - 1]
  zero : m = 0 ↔ n = 0

theorem Stands.refl (B n : ℕ) : Stands B n n := ⟨Nat.ModEq.refl n, Iff.rfl⟩

theorem Stands.trans {k : ℕ} (h : Stands B m n) (h' : Stands B n k) : Stands B m k :=
  ⟨h.residue.trans h'.residue, h.zero.trans h'.zero⟩

theorem stands_reduce (B n : ℕ) : Stands B (reduce B n) n := by
  unfold reduce
  split
  · rename_i hn
    exact ⟨by rw [hn], iff_of_true rfl hn⟩
  · rename_i hn
    refine ⟨?_, iff_of_false (Nat.succ_ne_zero _) hn⟩
    have hmod : (n - 1) % (B - 1) + 1 ≡ n - 1 + 1 [MOD B - 1] :=
      (Nat.mod_modEq (n - 1) (B - 1)).add_right 1
    rwa [Nat.sub_add_cancel (Nat.pos_of_ne_zero hn)] at hmod

theorem reduce_lt (hB : 2 ≤ B) (n : ℕ) : reduce B n < B := by
  unfold reduce
  split
  · omega
  · have := Nat.mod_lt (n - 1) (show 0 < B - 1 by omega)
    omega

/-- **Only one word stands for a number.** -/
theorem Stands.eq_reduce (hB : 2 ≤ B) (h : Stands B m n) (hm : m < B) : m = reduce B n := by
  have hs : Stands B m (reduce B n) :=
    ⟨h.residue.trans (stands_reduce B n).residue.symm, h.zero.trans (stands_reduce B n).zero.symm⟩
  have hlt := reduce_lt hB n
  generalize reduce B n = r at hs hlt
  -- two words of one residue are equal, or they are the two ends
  have hmod : m % (B - 1) = r % (B - 1) := hs.residue
  rcases Nat.lt_or_ge m (B - 1) with hm' | hm' <;> rcases Nat.lt_or_ge r (B - 1) with hr | hr
  · rwa [Nat.mod_eq_of_lt hm', Nat.mod_eq_of_lt hr] at hmod
  · have hr' : r = B - 1 := by omega
    rw [Nat.mod_eq_of_lt hm', hr', Nat.mod_self] at hmod
    have := hs.zero.1 hmod
    omega
  · have hm'' : m = B - 1 := by omega
    rw [Nat.mod_eq_of_lt hr, hm'', Nat.mod_self] at hmod
    have := hs.zero.2 hmod.symm
    omega
  · omega

/-- **Words that stand for two numbers are equal** exactly if the numbers
have one residue, where neither is zero. -/
theorem reduce_inj (hm : m ≠ 0) (hn : n ≠ 0) (hB : 2 ≤ B) :
    reduce B m = reduce B n ↔ m ≡ n [MOD B - 1] := by
  constructor
  · intro h
    have hr := (stands_reduce B m).residue
    rw [h] at hr
    exact hr.symm.trans (stands_reduce B n).residue
  · intro h
    refine Stands.eq_reduce hB ⟨(stands_reduce B m).residue.trans h, ?_⟩ (reduce_lt hB m)
    exact iff_of_false (fun hz => hm ((stands_reduce B m).zero.1 hz)) hn

/-- What adds nothing to a number that is not zero. -/
theorem reduce_add_eq_iff (ha : a ≠ 0) (hB : 2 ≤ B) :
    reduce B a = reduce B (a + b) ↔ b ≡ 0 [MOD B - 1] := by
  have hab : a + b ≠ 0 := by omega
  rw [reduce_inj ha hab hB]
  constructor
  · intro h
    exact (Nat.ModEq.add_left_cancel' (c := a) (a := 0) h).symm
  · intro h
    exact (h.add_left a).symm

/-- **Complements are congruent only if they are equal**, where they stand
for numbers that are not zero. -/
theorem complement_modEq_iff (hm : m ≠ 0) (hn : n ≠ 0) (hB : 2 ≤ B) :
    B - 1 - reduce B m ≡ B - 1 - reduce B n [MOD B - 1] ↔ reduce B m = reduce B n := by
  have hrm := mt (stands_reduce B m).zero.1 hm
  have hrn := mt (stands_reduce B n).zero.1 hn
  have hlm := reduce_lt hB m
  have hln := reduce_lt hB n
  unfold Nat.ModEq
  rw [Nat.mod_eq_of_lt (by omega), Nat.mod_eq_of_lt (by omega)]
  omega

/-! ## Adding words -/

theorem add_lt (ha : a < B) (hb : b < B) : add B a b < B := by
  unfold add
  split <;> omega

theorem stands_add (ha : a < B) : Stands B (add B a b) (a + b) := by
  unfold add
  split
  · exact Stands.refl B (a + b)
  · rename_i hover
    refine ⟨?_, by omega⟩
    have hle : B - 1 ≤ a + b := by omega
    have h := Nat.add_modEq_right (n := B - 1) (a := a + b - (B - 1))
    rw [Nat.sub_add_cancel hle] at h
    exact h.symm

/-- **The sum of words stands for the sum of the numbers.** -/
theorem sum_eq_reduce (hB : 2 ≤ B) {words : List ℕ} (h : ∀ w ∈ words, w < B) :
    sum B words = reduce B words.sum := by
  have hfold : ∀ a < B, Stands B (words.foldl (add B) a) (a + words.sum) ∧
      words.foldl (add B) a < B := by
    induction words with
    | nil =>
      intro a ha
      exact ⟨Stands.refl B a, ha⟩
    | cons w words ih =>
      intro a ha
      have hw := h w List.mem_cons_self
      obtain ⟨hs, hlt⟩ := ih (fun v hv => h v (List.mem_cons_of_mem w hv)) _ (add_lt ha hw)
      have hstep : Stands B (add B a w) (a + w) := stands_add ha
      rw [List.foldl_cons, List.sum_cons, ← Nat.add_assoc]
      refine ⟨hs.trans ⟨hstep.residue.add_right _, ?_⟩, hlt⟩
      rw [Nat.add_eq_zero_iff, Nat.add_eq_zero_iff, hstep.zero]
  obtain ⟨hs, hlt⟩ := hfold 0 (by omega)
  rw [Nat.zero_add] at hs
  exact hs.eq_reduce hB hlt

/-! ## Folding carries -/

/-- **A round of folding keeps the word.** -/
theorem stands_carry (hB : 0 < B) (n : ℕ) : Stands B (carry B n) n := by
  have hdiv := Nat.mod_add_div n B
  refine ⟨?_, ?_⟩
  · -- the number is the folded one and `B - 1` times its carries
    have hsplit : n = carry B n + (B - 1) * (n / B) := by
      have hmul : B * (n / B) = (B - 1) * (n / B) + n / B := by
        rw [← Nat.succ_mul, Nat.succ_eq_add_one, Nat.sub_add_cancel hB]
      unfold carry
      omega
    unfold Nat.ModEq
    rw [hsplit, Nat.add_mul_mod_self_left, ← hsplit]
  · unfold carry
    constructor
    · intro h
      obtain ⟨hmod, hquot⟩ := Nat.add_eq_zero_iff.1 h
      rw [hmod, hquot, Nat.mul_zero] at hdiv
      exact hdiv.symm
    · rintro rfl
      rw [Nat.zero_mod, Nat.zero_div]

end OnesComplement

end Kos
