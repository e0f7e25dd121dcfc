import Mathlib.Tactic.IntervalCases
import Kos.Common.Word
import Kos.Pci.Model
/-!
# Pci — one function of the bus

The address of a register tells the function and the offset apart. Sizing
the base address registers of a function writes those registers and no
others, and what an entry is filled in with depends on the registers of
its function alone.
-/

namespace Kos

namespace Pci

variable {c c' c'' : Space} {fn fn' : Fn} {o o' : UInt8} {v : UInt32}

/-! ## Addresses -/

/-- A function that the scan looks at: the fields of its address do not run
into each other. -/
def Fn.OnBus (fn : Fn) : Prop := fn.slot < 32 ∧ fn.func < 8

instance : Decidable fn.OnBus := inferInstanceAs (Decidable (_ ∧ _))

/-- The low byte of an address is the offset, whatever the function. -/
theorem configAddr_toUInt8 (fn : Fn) (o : UInt8) : (configAddr fn o).toUInt8 = o &&& 0xFC := by
  apply UInt8.eq_of_toBitVec_eq
  unfold configAddr
  ext i hi
  simp

theorem configAddr_ne (h : o &&& 0xFC ≠ o' &&& 0xFC) : configAddr fn o ≠ configAddr fn' o' := by
  intro heq
  have hlow := congrArg UInt32.toUInt8 heq
  rw [configAddr_toUInt8, configAddr_toUInt8] at hlow
  exact h hlow

/-- The address as a number, its fields one above the other. -/
theorem toNat_configAddr (h : fn.OnBus) (o : UInt8) :
    (configAddr fn o).toNat =
      2 ^ 31 + 2 ^ 16 * fn.bus.toNat + 2 ^ 11 * fn.slot.toNat + 2 ^ 8 * fn.func.toNat +
        (o &&& 0xFC).toNat := by
  have hbus := fn.bus.toNat_lt
  have hslot : fn.slot.toNat < 32 := h.1
  have hfunc : fn.func.toNat < 8 := h.2
  have ho := (o &&& 0xFC).toNat_lt
  have h16 : UInt32.toNat 16 % 32 = 16 := rfl
  have h11 : UInt32.toNat 11 % 32 = 11 := rfl
  have h8 : UInt32.toNat 8 % 32 = 8 := rfl
  have h31 : (2147483648 : UInt32).toNat = 2 ^ 31 * 1 := rfl
  unfold configAddr
  simp only [UInt32.toNat_or, UInt32.toNat_shiftLeft, UInt8.toNat_toUInt32, Nat.shiftLeft_eq]
  -- no shift loses a bit
  rw [h16, h11, h8, h31, Nat.mod_eq_of_lt (by omega), Nat.mod_eq_of_lt (by omega),
    Nat.mod_eq_of_lt (by omega)]
  rw [Nat.lor_comm _ (2 ^ 31 * 1), Nat.lor_assoc, Nat.lor_assoc, mul_comm _ (2 ^ 16),
    mul_comm _ (2 ^ 11), mul_comm _ (2 ^ 8), two_pow_mul_lor (k := 8) ho,
    two_pow_mul_lor (k := 11) (by omega), two_pow_mul_lor (k := 16) (by omega),
    two_pow_mul_lor (k := 31) (by omega)]
  omega

/-- **Two functions on the bus have no register in common.** -/
theorem configAddr_inj (h : fn.OnBus) (h' : fn'.OnBus) (heq : configAddr fn o = configAddr fn' o') :
    fn = fn' := by
  have hnat := congrArg UInt32.toNat heq
  rw [toNat_configAddr h, toNat_configAddr h'] at hnat
  have hbyte : ∀ x : UInt8, x.toNat < 256 := fun x => x.toNat_lt
  have hslot : fn.slot.toNat < 32 := h.1
  have hfunc : fn.func.toNat < 8 := h.2
  have hslot' : fn'.slot.toNat < 32 := h'.1
  have hfunc' : fn'.func.toNat < 8 := h'.2
  have := hbyte fn.bus
  have := hbyte fn'.bus
  have := hbyte (o &&& 0xFC)
  have := hbyte (o' &&& 0xFC)
  have hparts : fn.bus.toNat = fn'.bus.toNat ∧ fn.slot.toNat = fn'.slot.toNat ∧
      fn.func.toNat = fn'.func.toNat := by omega
  obtain ⟨bus, slot, func⟩ := fn
  obtain ⟨bus', slot', func'⟩ := fn'
  simpa [← UInt8.toNat_inj] using hparts

/-! ## Reads after writes -/

/-- A write leaves in its register what the rule of the register says. -/
theorem pciRead_pciWrite_self (c : Space) (fn : Fn) (o : UInt8) (v : UInt32) :
    pciRead (pciWrite c fn o v) fn o = c.rule (configAddr fn o) (pciRead c fn o) v :=
  Function.update_self ..

theorem regs_pciWrite_of_ne {a : UInt32} (h : a ≠ configAddr fn o) :
    (pciWrite c fn o v).regs a = c.regs a :=
  Function.update_of_ne h ..

/-! ## What sizing writes -/

/-- **From `c` to `c'` only base address registers of `fn` have changed.** -/
def OnlyBars (fn : Fn) (c c' : Space) : Prop :=
  c'.rule = c.rule ∧
    ∀ a, (∀ i < 6, a ≠ configAddr fn (barOffset i)) → c'.regs a = c.regs a

theorem OnlyBars.refl (fn : Fn) (c : Space) : OnlyBars fn c c := ⟨rfl, fun _ _ => rfl⟩

theorem OnlyBars.trans (h : OnlyBars fn c c') (h' : OnlyBars fn c' c'') : OnlyBars fn c c'' :=
  ⟨h'.1.trans h.1, fun a ha => (h'.2 a ha).trans (h.2 a ha)⟩

theorem onlyBars_write {i : ℕ} (hi : i < 6) : OnlyBars fn c (pciWrite c fn (barOffset i) v) :=
  ⟨rfl, fun _ ha => regs_pciWrite_of_ne (ha i hi)⟩

/-- What the two writes for register `i` leave. -/
def sizedUp (fn : Fn) (i : ℕ) (c : Space) : Space :=
  pciWrite (pciWrite c fn (barOffset i) 0xFFFFFFFF) fn (barOffset i) (pciRead c fn (barOffset i))

theorem probeBar_conf (fn : Fn) (i : ℕ) (c : Space) (d : Device) :
    (probeBar fn i c d).1 = sizedUp fn i c := by
  unfold probeBar sizedUp
  dsimp only
  split_ifs <;> rfl

theorem onlyBars_probeBars (fn : Fn) (n i : ℕ) (c : Space) (d : Device) :
    OnlyBars fn c (probeBars fn n i c d).1 := by
  induction n generalizing i c d with
  | zero => exact .refl fn c
  | succ n ih =>
    rw [probeBars]
    split
    · next hi =>
      have hstep : OnlyBars fn c (probeBar fn i c d).1 := by
        rw [probeBar_conf]
        exact (onlyBars_write hi).trans (onlyBars_write hi)
      exact hstep.trans (ih ..)
    · exact .refl fn c

theorem onlyBars_probeFunction (c : Space) (fn : Fn) (v : UInt32) :
    OnlyBars fn c (probeFunction c fn v).1 := onlyBars_probeBars ..

theorem barOffset_toNat {i : ℕ} (hi : i < 6) : (barOffset i &&& 0xFC).toNat = 0x10 + i * 4 := by
  interval_cases i <;> rfl

/-- The other registers, those of the header among them, stay as they are
in every function. -/
theorem OnlyBars.read (h : OnlyBars fn c c')
    (ho : (o &&& 0xFC).toNat < 0x10 ∨ 0x28 ≤ (o &&& 0xFC).toNat) (fn' : Fn) :
    pciRead c' fn' o = pciRead c fn' o := by
  refine h.2 _ fun i hi => configAddr_ne fun heq => ?_
  have hbar := barOffset_toNat hi
  rw [← heq] at hbar
  omega

/-! ## What an entry depends on -/

/-- **The two spaces are the same for this function.** -/
def AgreeOn (fn : Fn) (c c' : Space) : Prop :=
  c'.rule = c.rule ∧ ∀ o, pciRead c' fn o = pciRead c fn o

theorem AgreeOn.refl (fn : Fn) (c : Space) : AgreeOn fn c c := ⟨rfl, fun _ => rfl⟩

theorem AgreeOn.trans (h : AgreeOn fn c c') (h' : AgreeOn fn c' c'') : AgreeOn fn c c'' :=
  ⟨h'.1.trans h.1, fun o => (h'.2 o).trans (h.2 o)⟩

/-- Sizing one function is not seen by the others. -/
theorem OnlyBars.agreeOn (h : OnlyBars fn c c') (hfn : fn.OnBus) (hfn' : fn'.OnBus)
    (hne : fn' ≠ fn) : AgreeOn fn' c c' :=
  ⟨h.1, fun _ => h.2 _ fun _ _ heq => hne (configAddr_inj hfn' hfn heq)⟩

theorem AgreeOn.write (h : AgreeOn fn c c') (o : UInt8) (v : UInt32) :
    AgreeOn fn (pciWrite c fn o v) (pciWrite c' fn o v) := by
  refine ⟨h.1, fun o' => ?_⟩
  by_cases heq : configAddr fn o' = configAddr fn o
  · have hsame : ∀ x : Space, pciRead x fn o' = pciRead x fn o := fun x => congrArg x.regs heq
    rw [hsame, hsame, pciRead_pciWrite_self, pciRead_pciWrite_self, h.1, h.2]
  · unfold pciRead
    rw [regs_pciWrite_of_ne heq, regs_pciWrite_of_ne heq]
    exact h.2 o'

theorem AgreeOn.sizedUp (h : AgreeOn fn c c') (i : ℕ) :
    AgreeOn fn (sizedUp fn i c) (sizedUp fn i c') := by
  unfold Pci.sizedUp
  rw [h.2]
  exact (h.write ..).write ..

theorem AgreeOn.probeBar (h : AgreeOn fn c c') (i : ℕ) (d : Device) :
    (probeBar fn i c' d).2 = (probeBar fn i c d).2 := by
  have hones := h.write (barOffset i) 0xFFFFFFFF
  have hback := hones.write (barOffset i) (pciRead c fn (barOffset i))
  unfold Pci.probeBar
  dsimp only
  rw [h.2, hones.2, hback.2]
  split_ifs <;> rfl

theorem AgreeOn.probeBars (h : AgreeOn fn c c') (n i : ℕ) (d : Device) :
    (probeBars fn n i c' d).2 = (probeBars fn n i c d).2 ∧
      AgreeOn fn (probeBars fn n i c d).1 (probeBars fn n i c' d).1 := by
  induction n generalizing i c c' d with
  | zero => exact ⟨rfl, h⟩
  | succ n ih =>
    rw [Pci.probeBars, Pci.probeBars]
    split
    · have hstep : AgreeOn fn (Pci.probeBar fn i c d).1 (Pci.probeBar fn i c' d).1 := by
        rw [probeBar_conf, probeBar_conf]
        exact h.sizedUp i
      dsimp only
      rw [h.probeBar]
      exact ih hstep _ _
    · exact ⟨rfl, h⟩

theorem AgreeOn.probeFunction (h : AgreeOn fn c c') (v : UInt32) :
    (probeFunction c' fn v).2 = (probeFunction c fn v).2 ∧
      AgreeOn fn (probeFunction c fn v).1 (probeFunction c' fn v).1 := by
  unfold Pci.probeFunction
  dsimp only
  rw [h.2, h.2, h.2]
  exact h.probeBars ..

theorem AgreeOn.capWalk (h : AgreeOn fn c c') (n : ℕ) (p : UInt8) (d : Device) :
    capWalk c' fn n p d = capWalk c fn n p d := by
  induction n generalizing p d with
  | zero => rfl
  | succ n ih =>
    rw [Pci.capWalk, Pci.capWalk, h.2]
    split_ifs
    · rfl
    · dsimp only
      split_ifs
      · rfl
      · rfl
      · exact ih ..
      · exact ih ..

/-- **What is entered for a function depends on its own registers.** -/
theorem AgreeOn.initFunction (h : AgreeOn fn c c') (fuel : ℕ) (v : UInt32) :
    (initFunction fuel c' fn v).map Prod.snd = (initFunction fuel c fn v).map Prod.snd := by
  obtain ⟨hdev, hconf⟩ := h.probeFunction v
  unfold Pci.initFunction
  dsimp only
  rw [hdev, hconf.2, hconf.capWalk, Option.map_map, Option.map_map]
  rfl

/-! ## What is left of an entry

What the loop over the base address registers and the capability walk do
not fill in. -/

/-- Where the function is and what it says it is. -/
def Device.ident (d : Device) : Fn × UInt16 × UInt16 × UInt8 × UInt8 × UInt8 × UInt8 :=
  (d.fn, d.vendorId, d.deviceId, d.classCode, d.subclass, d.progIf, d.revision)

theorem probeBars_ident (fn : Fn) (n i : ℕ) (c : Space) (d : Device) :
    (probeBars fn n i c d).2.ident = d.ident := by
  have hbody : ∀ i c d, (probeBar fn i c d).2.1.ident = d.ident := by
    intro i c d
    unfold probeBar
    dsimp only
    split_ifs <;> rfl
  induction n generalizing i c d with
  | zero => rfl
  | succ n ih =>
    rw [probeBars]
    split
    · exact (ih ..).trans (hbody ..)
    · rfl

/-- The walk sets the two fields of the capability it looks for. -/
theorem capWalk_some {n : ℕ} {p : UInt8} {d d' : Device} (h : capWalk c fn n p d = some d') :
    ∃ capable offset, d' = { d with msiCapable := capable, msiOffset := offset } := by
  induction n generalizing p d with
  | zero => cases h
  | succ n ih =>
    rw [capWalk] at h
    split at h
    · exact ⟨d.msiCapable, d.msiOffset, (Option.some.inj h).symm⟩
    · dsimp only at h
      split_ifs at h
      · exact ⟨true, p, (Option.some.inj h).symm⟩
      · exact ⟨d.msiCapable, d.msiOffset, (Option.some.inj h).symm⟩
      · obtain ⟨capable, offset, rfl⟩ := ih h
        exact ⟨capable, offset, rfl⟩
      · exact ih h

/-- **An entry** is what the loop over the base address registers leaves,
but for those two fields. -/
theorem initFunction_some {fuel : ℕ} {p : Space × Device}
    (h : initFunction fuel c fn v = some p) :
    p.1 = (probeFunction c fn v).1 ∧ ∃ capable offset,
      p.2 = { (probeFunction c fn v).2 with msiCapable := capable, msiOffset := offset } := by
  obtain ⟨d, hd, rfl⟩ := Option.map_eq_some_iff.1 h
  obtain ⟨capable, offset, rfl⟩ := capWalk_some hd
  exact ⟨rfl, capable, offset, rfl⟩

/-- More fuel does not change a walk that is at its end. -/
theorem capWalk_mono {n m : ℕ} {p : UInt8} {d d' : Device} (h : capWalk c fn n p d = some d')
    (hle : n ≤ m) : capWalk c fn m p d = some d' := by
  induction n generalizing m p d with
  | zero => cases h
  | succ n ih =>
    obtain ⟨m, rfl⟩ := Nat.exists_eq_add_of_le' (Nat.lt_of_lt_of_le n.succ_pos hle)
    rw [capWalk] at h ⊢
    split at h
    · rw [if_pos ‹_›, h]
    · rw [if_neg ‹_›]
      dsimp only at h ⊢
      split at h
      · rw [if_pos ‹_›, h]
      · rw [if_neg ‹_›]
        exact ih h (Nat.le_of_succ_le_succ hle)

theorem initFunction_mono {n m : ℕ} {p : Space × Device} (h : initFunction n c fn v = some p)
    (hle : n ≤ m) : initFunction m c fn v = some p := by
  obtain ⟨d, hd, rfl⟩ := Option.map_eq_some_iff.1 h
  exact Option.map_eq_some_iff.2 ⟨d, capWalk_mono hd hle, rfl⟩

end Pci

end Kos
