import Kos.Pci.Capabilities
/-!
# Pci — address ranges and their registers

A base address register holds an address whose low bits, below the size
of the range, are hardwired, and the lowest of them say what kind of
range it is. A range of memory may have two registers, and then has an
address of 64 bits.
-/

namespace Kos

namespace Pci

variable {c : Space} {fn : Fn} {i : ℕ}

/-! ## Registers -/

/-- A register whose lowest `fixed` bits are hardwired, to `type`, and so
are the bits from `width` up, to zero. -/
structure Register where
  fixed : ℕ
  width : ℕ
  type : ℕ
  base : ℕ
  hwidth : width ≤ 32
  htype : type < 2 ^ fixed
  hbase : base + type < 2 ^ width
  haligned : 2 ^ fixed ∣ base

namespace Register

/-- What the register holds. -/
def value (r : Register) : ℕ := r.base + r.type

/-- What is in it after `w` has been written. -/
def keep (r : Register) (w : ℕ) : ℕ := 2 ^ r.fixed * (w % 2 ^ r.width / 2 ^ r.fixed) + r.type

/-- A register that takes no address at all. -/
def unused : Register where
  fixed := 32
  width := 32
  type := 0
  base := 0
  hwidth := le_refl 32
  htype := by decide
  hbase := by decide
  haligned := Nat.dvd_zero _

variable (r : Register)

theorem value_lt : r.value < 2 ^ 32 :=
  r.hbase.trans_le (Nat.pow_le_pow_right (by decide) r.hwidth)

/-- Writing back what was read changes nothing. -/
theorem keep_value : r.keep r.value = r.value := by
  obtain ⟨n, hn⟩ := r.haligned
  have hdiv : (2 ^ r.fixed * n + r.type) / 2 ^ r.fixed = n := by
    rw [Nat.mul_add_div (Nat.two_pow_pos _), Nat.div_eq_of_lt r.htype, Nat.add_zero]
  have hlt := r.hbase
  unfold keep value
  rw [Nat.mod_eq_of_lt hlt, hn, hdiv]

/-- **Ones come back in the bits of the address**, and the hardwired bits
as they are. -/
theorem keep_ones : r.keep (2 ^ 32 - 1) = 2 ^ r.width - 2 ^ r.fixed + r.type := by
  unfold keep
  rw [two_pow_sub_one_mod r.hwidth, two_pow_mul_div_sub_one]

/-- **Base address register `i` of the function is this register.** -/
def At (c : Space) (fn : Fn) (i : ℕ) : Prop :=
  (pciRead c fn (barOffset i)).toNat = r.value ∧
    ∀ old w, (c.rule (configAddr fn (barOffset i)) old w).toNat = r.keep w.toNat

end Register

/-! ## What the registers decode -/

/-- The kinds of base address register, with a port address of 32 bits or
of sixteen, and memory that may be prefetched or not. -/
inductive Kind
  | io (wide : Bool)
  | mem32 (prefetch : Bool)
  | mem64 (prefetch : Bool)
  deriving DecidableEq, Repr

namespace Kind

/-- The address bits of the first register. -/
def loWidth : Kind → ℕ
  | io wide => if wide then 32 else 16
  | mem32 _ | mem64 _ => 32

/-- The bits of the address. -/
def width : Kind → ℕ
  | mem64 _ => 64
  | k => k.loWidth

/-- The least size, as a power of two: what the type bits leave room for. -/
def least : Kind → ℕ
  | io _ => 2
  | mem32 _ | mem64 _ => 4

/-- The type bits. -/
def type : Kind → ℕ
  | io _ => 1
  | mem32 prefetch => 8 * prefetch.toNat
  | mem64 prefetch => 4 + 8 * prefetch.toNat

def isMem : Kind → Bool
  | io _ => false
  | mem32 _ | mem64 _ => true

theorem loWidth_le (kind : Kind) : kind.loWidth ≤ 32 := by
  rcases kind with ⟨_ | _⟩ | ⟨_ | _⟩ | ⟨_ | _⟩ <;> decide

theorem width_le (kind : Kind) : kind.width ≤ 64 := by
  rcases kind with ⟨_ | _⟩ | ⟨_ | _⟩ | ⟨_ | _⟩ <;> decide

/-- An address of one register is all in that register. -/
theorem width_eq (kind : Kind) : kind.width = kind.loWidth ∨ kind.loWidth = 32 := by
  rcases kind with ⟨_ | _⟩ | ⟨_ | _⟩ | ⟨_ | _⟩ <;> decide

theorem type_lt_loWidth (kind : Kind) : kind.type < 2 ^ kind.loWidth := by
  rcases kind with ⟨_ | _⟩ | ⟨_ | _⟩ | ⟨_ | _⟩ <;> decide

theorem type_lt (kind : Kind) : kind.type < 2 ^ kind.least := by
  rcases kind with ⟨_ | _⟩ | ⟨_ | _⟩ | ⟨_ | _⟩ <;> decide

end Kind

/-- **A range of `2 ^ k` ports or bytes** at a multiple of its size. -/
structure Bar where
  kind : Kind
  k : ℕ
  base : ℕ
  hleast : kind.least ≤ k
  hwidth : k < kind.width
  hbase : base < 2 ^ kind.width
  haligned : 2 ^ k ∣ base

namespace Bar

variable (b : Bar)

theorem type_lt : b.kind.type < 2 ^ b.k :=
  b.kind.type_lt.trans_le (Nat.pow_le_pow_right (by decide) b.hleast)

/-- The low half of the address is aligned, too. -/
theorem low_aligned : 2 ^ b.k ∣ b.base % 2 ^ 32 := by
  rcases Nat.le_total b.k 32 with hle | hge
  · exact (Nat.dvd_mod_iff (Nat.pow_dvd_pow 2 hle)).2 b.haligned
  · have hdvd : 2 ^ 32 ∣ b.base := (Nat.pow_dvd_pow 2 hge).trans b.haligned
    rw [Nat.mod_eq_zero_of_dvd hdvd]
    exact Nat.dvd_zero _

theorem low_lt : b.base % 2 ^ 32 < 2 ^ b.kind.loWidth := by
  rcases b.kind.width_eq with hw | hw
  · exact (Nat.mod_le ..).trans_lt (hw ▸ b.hbase)
  · rw [hw]
    exact Nat.mod_lt _ (by decide)

theorem low_add_type_lt : b.base % 2 ^ 32 + b.kind.type < 2 ^ b.kind.loWidth := by
  rcases Nat.lt_or_ge b.kind.loWidth b.k with hlt | hge
  · -- the size takes up the lower half of a pair
    have hw : b.kind.loWidth = 32 := by
      have hk := b.hwidth
      have hwidth := b.kind.width_eq
      omega
    have hdvd : 2 ^ 32 ∣ b.base := (Nat.pow_dvd_pow 2 (hw ▸ hlt.le)).trans b.haligned
    rw [Nat.mod_eq_zero_of_dvd hdvd, Nat.zero_add]
    exact b.kind.type_lt_loWidth
  · exact add_lt_two_pow hge b.low_aligned b.low_lt b.type_lt

/-- The register, or the lower of the two. -/
def lo : Register where
  fixed := b.k
  width := b.kind.loWidth
  type := b.kind.type
  base := b.base % 2 ^ 32
  hwidth := b.kind.loWidth_le
  htype := b.type_lt
  hbase := b.low_add_type_lt
  haligned := b.low_aligned

/-- The upper half of a pair. -/
def hi : Register where
  fixed := b.k - 32
  width := 32
  type := 0
  base := b.base / 2 ^ 32
  hwidth := le_refl 32
  htype := Nat.two_pow_pos _
  hbase := by
    have hlt := b.hbase.trans_le (Nat.pow_le_pow_right (by decide) b.kind.width_le)
    omega
  haligned := by
    obtain ⟨n, hn⟩ := b.haligned
    rcases Nat.le_total b.k 32 with hle | hge
    · rw [Nat.sub_eq_zero_of_le hle]
      exact Nat.one_dvd _
    · have hpow : 2 ^ b.k = 2 ^ 32 * 2 ^ (b.k - 32) := by rw [← Nat.pow_add, Nat.add_sub_cancel' hge]
      refine ⟨n, ?_⟩
      rw [hn, hpow, Nat.mul_assoc, Nat.mul_div_cancel_left _ (by decide)]

end Bar

theorem Register.keep_lt (r : Register) (w : ℕ) : r.keep w < 2 ^ 32 := by
  have hwidth := Nat.pow_le_pow_right (by decide : 0 < 2) r.hwidth
  have hmod := Nat.mod_lt w (Nat.two_pow_pos r.width)
  have hround := Nat.mul_div_le (w % 2 ^ r.width) (2 ^ r.fixed)
  refine lt_of_lt_of_le ?_ hwidth
  unfold keep
  rcases Nat.le_total r.fixed r.width with hle | hge
  · exact add_lt_two_pow hle (Nat.dvd_mul_right ..) (by omega) r.htype
  · have hpow := Nat.pow_le_pow_right (by decide : 0 < 2) hge
    have hbase := r.hbase
    rw [Nat.div_eq_of_lt (by omega), Nat.mul_zero]
    omega

/-- The registers of an address range, or the one that is unused. -/
def registers : Option Bar → List Register
  | none => [.unused]
  | some b =>
    match b.kind with
    | .mem64 _ => [b.lo, b.hi]
    | _ => [b.lo]

/-- From index `i` on, the function has these registers. -/
def Holds (c : Space) (fn : Fn) : ℕ → List Register → Prop
  | _, [] => True
  | i, r :: rs => r.At c fn i ∧ Holds c fn (i + 1) rs

theorem holds_append {i : ℕ} {rs rs' : List Register} :
    Holds c fn i (rs ++ rs') ↔ Holds c fn i rs ∧ Holds c fn (i + rs.length) rs' := by
  induction rs generalizing i with
  | nil => simp [Holds]
  | cons r rs ih => simp [Holds, ih, and_assoc, Nat.add_assoc, Nat.add_comm 1]

theorem Holds.at {i j : ℕ} {rs : List Register} (h : Holds c fn i rs) (hi : i ≤ j)
    (hj : j < i + rs.length) : ∃ r : Register, r.At c fn j := by
  induction rs generalizing i with
  | nil => exact absurd hj (by simpa using hi)
  | cons r rs ih =>
    rcases Nat.eq_or_lt_of_le hi with rfl | hlt
    · exact ⟨r, h.1⟩
    · exact ih h.2 hlt (by rw [List.length_cons] at hj; omega)

/-- **The six registers of the function are those of these ranges**, in
this order. -/
def Laid (c : Space) (fn : Fn) (bars : List (Option Bar)) : Prop :=
  (bars.flatMap registers).length = 6 ∧ Holds c fn 0 (bars.flatMap registers)

/-- Each range and the index of its register, or of the lower of the two. -/
def starts : ℕ → List (Option Bar) → List (ℕ × Option Bar)
  | _, [] => []
  | i, b :: bs => (i, b) :: starts (i + (registers b).length) bs

theorem Register.At.restores {r : Register} (h : r.At c fn i) :
    c.rule (configAddr fn (barOffset i))
      (c.rule (configAddr fn (barOffset i)) (pciRead c fn (barOffset i)) 0xFFFFFFFF)
      (pciRead c fn (barOffset i)) = pciRead c fn (barOffset i) := by
  rw [← UInt32.toNat_inj, h.2, h.1, r.keep_value]

theorem Laid.restores {bars : List (Option Bar)} (h : Laid c fn bars) : Restores c fn := by
  intro i hi
  obtain ⟨r, hr⟩ := h.2.at (Nat.zero_le i) (by rw [h.1]; omega)
  exact hr.restores

end Pci

end Kos
