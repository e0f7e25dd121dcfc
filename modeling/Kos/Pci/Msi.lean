import Kos.Pci.Function
/-!
# Pci — writing half a register

`pci_write_word` writes half a register by reading all of it and writing
all of it back. In plain storage the other half is as it was. It is not
where writing back what was read does something, as it does to the bits
of the Status register. `pci_enable_msi` writes one half of the upper
register of a 64-bit message address, and leaves the other.
-/

namespace Kos

namespace Pci

variable {c : Space} {d : Device} {fn : Fn} {o o' : UInt8} {r x y : UInt32} {v : UInt16}

/-! ## Halves of a register -/

/-- The lower half. -/
def loWord (r : UInt32) : UInt16 := r.toUInt16

/-- The upper half. -/
def hiWord (r : UInt32) : UInt16 := (r >>> 16).toUInt16

theorem toNat_loWord (r : UInt32) : (loWord r).toNat = r.toNat % 2 ^ 16 := by
  simp [loWord]

theorem toNat_hiWord (r : UInt32) : (hiWord r).toNat = r.toNat / 2 ^ 16 := by
  have hlt := r.toNat_lt
  unfold hiWord
  simp [Nat.shiftRight_eq_div_pow]
  omega

/-- A register is its two halves. -/
theorem word_ext (hlo : loWord x = loWord y) (hhi : hiWord x = hiWord y) : x = y := by
  rw [← UInt16.toNat_inj] at hlo hhi
  rw [toNat_loWord, toNat_loWord] at hlo
  rw [toNat_hiWord, toNat_hiWord] at hhi
  rw [← UInt32.toNat_inj]
  omega

/-- What `pci_write_word` writes, where it has read `r`. -/
def setWord (r : UInt32) (upper : Bool) (v : UInt16) : UInt32 :=
  if upper then (r &&& (0xFFFF : UInt32)) ||| (v.toUInt32 <<< 16)
  else (r &&& 0xFFFF0000) ||| v.toUInt32

theorem toNat_setWord_upper (r : UInt32) (v : UInt16) :
    (setWord r true v).toNat = 2 ^ 16 * v.toNat + r.toNat % 2 ^ 16 := by
  have hv := v.toNat_lt
  have h16 : UInt32.toNat 16 % 32 = 16 := rfl
  have hmask : (65535 : UInt32).toNat = 2 ^ 16 - 1 := rfl
  unfold setWord
  rw [if_pos rfl, UInt32.toNat_or, UInt32.toNat_and, UInt32.toNat_shiftLeft, hmask, h16,
    Nat.and_two_pow_sub_one_eq_mod, UInt16.toNat_toUInt32, Nat.shiftLeft_eq,
    Nat.mod_eq_of_lt (by omega : v.toNat * 2 ^ 16 < 2 ^ 32), Nat.lor_comm, Nat.mul_comm,
    two_pow_mul_lor (Nat.mod_lt _ (by decide))]

theorem toNat_setWord_lower (r : UInt32) (v : UInt16) :
    (setWord r false v).toNat = 2 ^ 16 * (r.toNat / 2 ^ 16) + v.toNat := by
  have hv := v.toNat_lt
  have hmask : (4294901760 : UInt32).toNat = 2 ^ 32 - 2 ^ 16 := rfl
  unfold setWord
  rw [if_neg (by decide), UInt32.toNat_or, UInt32.toNat_and, UInt16.toNat_toUInt32, hmask,
    land_two_pow_sub_two_pow r.toNat_lt (by decide), two_pow_mul_lor (by omega)]

/-- **One half is written and the other is as it was.** -/
theorem words_setWord (r : UInt32) (upper : Bool) (v : UInt16) :
    loWord (setWord r upper v) = (if upper then loWord r else v) ∧
      hiWord (setWord r upper v) = if upper then v else hiWord r := by
  have hv := v.toNat_lt
  have hr := r.toNat_lt
  cases upper with
  | true =>
    simp only [if_true, ← UInt16.toNat_inj, toNat_loWord, toNat_hiWord, toNat_setWord_upper]
    omega
  | false =>
    simp only [Bool.false_eq_true, if_false, ← UInt16.toNat_inj, toNat_loWord, toNat_hiWord,
      toNat_setWord_lower]
    omega

/-! ## Offsets -/

theorem toNat_land_fc (o : UInt8) : (o &&& 0xFC).toNat = 4 * (o.toNat / 4) := by
  have hmask : (252 : UInt8).toNat = 2 ^ 8 - 2 ^ 2 := rfl
  rw [UInt8.toNat_and, hmask]
  exact land_two_pow_sub_two_pow o.toNat_lt (by decide)

theorem land_two_ne_zero_iff (o : UInt8) : o &&& 2 ≠ 0 ↔ o.toNat / 2 % 2 = 1 := by
  rw [ne_eq, ← UInt8.toNat_inj, UInt8.toNat_and]
  exact land_two_pow_ne_zero_iff o.toNat 1

/-- Two offsets are in one register if they are in the same four bytes. -/
theorem configAddr_eq_iff : configAddr fn o = configAddr fn o' ↔ o.toNat / 4 = o'.toNat / 4 := by
  constructor
  · intro h
    have hlow := congrArg UInt8.toNat (congrArg UInt32.toUInt8 h)
    rw [configAddr_toUInt8, configAddr_toUInt8, toNat_land_fc, toNat_land_fc] at hlow
    omega
  · intro h
    have hlow : o &&& 0xFC = o' &&& 0xFC := by
      rw [← UInt8.toNat_inj, toNat_land_fc, toNat_land_fc, h]
    unfold configAddr
    rw [hlow]

/-- The half of a register that an offset is in. -/
def word (c : Space) (fn : Fn) (o : UInt8) : UInt16 :=
  if o &&& 2 ≠ 0 then hiWord (pciRead c fn o) else loWord (pciRead c fn o)

theorem pciRead_land (c : Space) (fn : Fn) (o : UInt8) :
    pciRead c fn (o &&& ~~~3) = pciRead c fn o := by
  have hmask : ~~~(3 : UInt8) = 0xFC := by decide
  unfold pciRead configAddr
  rw [hmask, UInt8.and_assoc, UInt8.and_self]

theorem pciReadWord_eq (c : Space) (d : Device) (o : UInt8) : pciReadWord c d o = word c d.fn o := by
  unfold pciReadWord word
  rw [pciRead_land]
  rfl

theorem pciWriteWord_eq (c : Space) (d : Device) (o : UInt8) (v : UInt16) :
    pciWriteWord c d o v =
      pciWrite c d.fn o (setWord (pciRead c d.fn o) (decide (o &&& 2 ≠ 0)) v) := by
  unfold pciWriteWord pciReadDword setWord
  dsimp only
  rw [pciRead_land]
  by_cases h : o &&& 2 ≠ 0
  · rw [if_pos h, if_pos (decide_eq_true h)]
  · rw [if_neg h, if_neg (by simpa using h)]

@[simp] theorem pciWriteWord_rule (c : Space) (d : Device) (o : UInt8) (v : UInt16) :
    (pciWriteWord c d o v).rule = c.rule := by
  rw [pciWriteWord_eq]
  rfl

/-- The other registers are left alone. -/
theorem regs_pciWriteWord {a : UInt32} (h : a ≠ configAddr d.fn o) :
    (pciWriteWord c d o v).regs a = c.regs a := by
  rw [pciWriteWord_eq]
  exact regs_pciWrite_of_ne h

theorem pciRead_pciWriteWord_of_ne (h : o'.toNat / 4 ≠ o.toNat / 4) :
    pciRead (pciWriteWord c d o v) d.fn o' = pciRead c d.fn o' :=
  regs_pciWriteWord fun heq => h (configAddr_eq_iff.1 heq)

/-- **In plain storage a word is written and the others are as they were.** -/
theorem word_pciWriteWord (hc : c.rule = plain) (o o' : UInt8) (v : UInt16) :
    word (pciWriteWord c d o v) d.fn o' =
      if o'.toNat / 2 = o.toNat / 2 then v else word c d.fn o' := by
  unfold word
  by_cases hreg : o'.toNat / 4 = o.toNat / 4
  · have hsame : ∀ s : Space, pciRead s d.fn o' = pciRead s d.fn o :=
      fun s => congrArg s.regs (configAddr_eq_iff.2 hreg)
    have hnew : pciRead (pciWriteWord c d o v) d.fn o =
        setWord (pciRead c d.fn o) (decide (o &&& 2 ≠ 0)) v := by
      rw [pciWriteWord_eq, pciRead_pciWrite_self, hc]
      rfl
    obtain ⟨hlo, hhi⟩ := words_setWord (pciRead c d.fn o) (decide (o &&& 2 ≠ 0)) v
    rw [hsame, hsame, hnew, hlo, hhi]
    simp only [decide_eq_true_eq, land_two_ne_zero_iff]
    split_ifs <;> first | rfl | omega
  · rw [if_neg (by omega : ¬ o'.toNat / 2 = o.toNat / 2), pciRead_pciWriteWord_of_ne hreg]

/-! ## `pci_enable_msi` in plain storage -/

/-- The capability has a message address of 64 bits. -/
def Is64 (c : Space) (d : Device) : Prop := word c d.fn (d.msiOffset + 0x02) &&& 0x80 ≠ 0

instance (c : Space) (d : Device) : Decidable (Is64 c d) := inferInstanceAs (Decidable (_ ≠ _))

/-- The capability is where capabilities are, and aligned. -/
structure MsiPlaced (d : Device) : Prop where
  capable : d.msiCapable = true
  low : 0x40 ≤ d.msiOffset.toNat
  high : d.msiOffset.toNat ≤ 0xF0
  aligned : 4 ∣ d.msiOffset.toNat

theorem MsiPlaced.half (h : MsiPlaced d) {k : UInt8} (hk : k.toNat ≤ 12) :
    (d.msiOffset + k).toNat / 2 = d.msiOffset.toNat / 2 + k.toNat / 2 := by
  have hhigh := h.high
  have haligned := h.aligned
  rw [UInt8.toNat_add, Nat.mod_eq_of_lt (by omega)]
  omega

/-- The word the vector goes to. -/
def dataOffset (c : Space) (d : Device) : UInt8 :=
  if Is64 c d then d.msiOffset + 0x0C else d.msiOffset + 0x08

/-- The words of a capability, counted in words from the start. -/
theorem MsiPlaced.halves (h : MsiPlaced d) :
    32 ≤ d.msiOffset.toNat / 2 ∧ d.msiOffset.toNat / 2 % 2 = 0 ∧
      (d.msiOffset + 0x02).toNat / 2 = d.msiOffset.toNat / 2 + 1 ∧
      (d.msiOffset + 0x04).toNat / 2 = d.msiOffset.toNat / 2 + 2 ∧
      (d.msiOffset + 0x06).toNat / 2 = d.msiOffset.toNat / 2 + 3 ∧
      (d.msiOffset + 0x08).toNat / 2 = d.msiOffset.toNat / 2 + 4 ∧
      (d.msiOffset + 0x0A).toNat / 2 = d.msiOffset.toNat / 2 + 5 ∧
      (d.msiOffset + 0x0C).toNat / 2 = d.msiOffset.toNat / 2 + 6 := by
  have hlow := h.low
  have haligned := h.aligned
  exact ⟨by omega, by omega, h.half (by decide), h.half (by decide), h.half (by decide),
    h.half (by decide), h.half (by decide), h.half (by decide)⟩

/-- The word the vector goes to, so counted. -/
theorem MsiPlaced.dataOffset_half (h : MsiPlaced d) (c : Space) :
    (Is64 c d ∧ (dataOffset c d).toNat / 2 = d.msiOffset.toNat / 2 + 6) ∨
      (¬ Is64 c d ∧ (dataOffset c d).toNat / 2 = d.msiOffset.toNat / 2 + 4) := by
  obtain ⟨-, -, -, -, -, h8, -, h12⟩ := h.halves
  unfold dataOffset
  by_cases h64 : Is64 c d
  · exact Or.inl ⟨h64, by rw [if_pos h64, h12]⟩
  · exact Or.inr ⟨h64, by rw [if_neg h64, h8]⟩

/-- The words that there is something to do to: the command word and those
of the capability, both halves of the upper address among them. -/
def msiWords (c : Space) (d : Device) : List UInt8 :=
  [0x04, d.msiOffset + 0x02, d.msiOffset + 0x04, d.msiOffset + 0x06, dataOffset c d] ++
    if Is64 c d then [d.msiOffset + 0x08, d.msiOffset + 0x0A] else []

/-- The space before the last write, which is to the command word. -/
def msiWritten (c : Space) (d : Device) (vector : UInt8) : Space :=
  let msgCtrl := word c d.fn (d.msiOffset + 0x02)
  let c := pciWriteWord c d (d.msiOffset + 0x04) 0
  let c := pciWriteWord c d (d.msiOffset + 0x06) 0xFEE0
  let c :=
    if msgCtrl &&& 0x80 ≠ 0 then
      pciWriteWord (pciWriteWord c d (d.msiOffset + 0x08) 0) d (d.msiOffset + 0x0C) vector.toUInt16
    else pciWriteWord c d (d.msiOffset + 0x08) vector.toUInt16
  pciWriteWord c d (d.msiOffset + 0x02) (msgCtrl ||| 0x01)

theorem pciEnableMsi_eq (h : d.msiCapable = true) (c : Space) (vector : UInt8) :
    pciEnableMsi c d vector =
      (pciWriteWord (msiWritten c d vector) d 0x04
        (word (msiWritten c d vector) d.fn 0x04 ||| 0x0400), true) := by
  unfold pciEnableMsi msiWritten
  rw [h]
  simp only [pciReadWord_eq]
  rfl

theorem msiWritten_rule (c : Space) (d : Device) (vector : UInt8) :
    (msiWritten c d vector).rule = c.rule := by
  unfold msiWritten
  dsimp only
  split_ifs <;> simp

/-- The words of the capability. -/
theorem word_msiWritten (hc : c.rule = plain) (h : MsiPlaced d) (vector : UInt8) (o' : UInt8) :
    word (msiWritten c d vector) d.fn o' =
      if o'.toNat / 2 = d.msiOffset.toNat / 2 + 1 then word c d.fn (d.msiOffset + 0x02) ||| 0x01
      else if o'.toNat / 2 = (dataOffset c d).toNat / 2 then vector.toUInt16
      else if o'.toNat / 2 = d.msiOffset.toNat / 2 + 4 then 0
      else if o'.toNat / 2 = d.msiOffset.toNat / 2 + 3 then 0xFEE0
      else if o'.toNat / 2 = d.msiOffset.toNat / 2 + 2 then 0
      else word c d.fn o' := by
  obtain ⟨-, -, h2, h4, h6, h8, -, h12⟩ := h.halves
  unfold msiWritten
  rcases h.dataOffset_half c with ⟨h64, hdata⟩ | ⟨h64, hdata⟩
  · unfold Is64 at h64
    simp (disch := simp [hc]) only [word_pciWriteWord, if_pos h64, hdata, h2, h4, h6, h8, h12]
  · unfold Is64 at h64
    simp (disch := simp [hc]) only [word_pciWriteWord, if_neg h64, hdata, h2, h4, h6, h8]
    split_ifs <;> rfl

/-- **The words that `pci_enable_msi` leaves.** -/
theorem word_pciEnableMsi (hc : c.rule = plain) (h : MsiPlaced d) (vector : UInt8) (o' : UInt8) :
    word (pciEnableMsi c d vector).1 d.fn o' =
      if o'.toNat / 2 = 2 then word c d.fn 0x04 ||| 0x0400
      else word (msiWritten c d vector) d.fn o' := by
  have hlow := h.low
  have hfour : UInt8.toNat 4 = 4 := rfl
  have hdata : (dataOffset c d).toNat / 2 ≠ 2 := by
    rcases h.dataOffset_half c with ⟨-, hd⟩ | ⟨-, hd⟩ <;> omega
  have hcommand : word (msiWritten c d vector) d.fn 0x04 = word c d.fn 0x04 := by
    rw [word_msiWritten hc h, hfour]
    split_ifs <;> first | rfl | omega
  rw [pciEnableMsi_eq h.capable, hcommand]
  exact word_pciWriteWord ((msiWritten_rule ..).trans hc) ..

/-- **The message goes to the vector and to the local APIC**, and nothing
but what that takes has changed. -/
structure MsiProgrammed (c c' : Space) (d : Device) (vector : UInt8) : Prop where
  address : pciRead c' d.fn (d.msiOffset + 0x04) = 0xFEE00000
  upper : Is64 c d → pciRead c' d.fn (d.msiOffset + 0x08) = 0
  data : word c' d.fn (dataOffset c d) = vector.toUInt16
  enabled : word c' d.fn (d.msiOffset + 0x02) = word c d.fn (d.msiOffset + 0x02) ||| 0x01
  intx : word c' d.fn 0x04 = word c d.fn 0x04 ||| 0x0400
  words : ∀ o, (∀ w ∈ msiWords c d, o.toNat / 2 ≠ w.toNat / 2) → word c' d.fn o = word c d.fn o
  others : ∀ a, (∀ o, a ≠ configAddr d.fn o) → c'.regs a = c.regs a

theorem loWord_pciRead (h : o.toNat / 2 % 2 = 0) : loWord (pciRead c fn o) = word c fn o := by
  have hlow : ¬ o &&& 2 ≠ 0 := by
    rw [land_two_ne_zero_iff]
    omega
  rw [word, if_neg hlow]

theorem hiWord_pciRead (h : o.toNat / 2 % 2 = 0) (h' : o'.toNat / 2 = o.toNat / 2 + 1) :
    hiWord (pciRead c fn o) = word c fn o' := by
  have hhigh : o' &&& 2 ≠ 0 := by
    rw [land_two_ne_zero_iff]
    omega
  have hsame : pciRead c fn o = pciRead c fn o' :=
    congrArg c.regs (configAddr_eq_iff.2 (by omega))
  rw [word, if_pos hhigh, hsame]

/-- The registers of other functions are left alone. -/
theorem regs_pciEnableMsi {a : UInt32} (h : ∀ o, a ≠ configAddr d.fn o) (vector : UInt8) :
    (pciEnableMsi c d vector).1.regs a = c.regs a := by
  by_cases hcap : d.msiCapable = true
  · rw [pciEnableMsi_eq hcap]
    unfold msiWritten
    dsimp only
    split_ifs <;> simp only [regs_pciWriteWord (h _)]
  · rw [pciEnableMsi, if_pos (by simpa using hcap)]

/-- The upper half of the upper address is not written. -/
theorem hiWord_upper (hc : c.rule = plain) (h : MsiPlaced d) (vector : UInt8) :
    hiWord (pciRead (pciEnableMsi c d vector).1 d.fn (d.msiOffset + 0x08)) =
      hiWord (pciRead c d.fn (d.msiOffset + 0x08)) := by
  obtain ⟨hlow, heven, -, -, -, h8, h10, -⟩ := h.halves
  have hdata : (dataOffset c d).toNat / 2 ≠ d.msiOffset.toNat / 2 + 5 := by
    rcases h.dataOffset_half c with ⟨-, hd⟩ | ⟨-, hd⟩ <;> omega
  have hhigh : ∀ s : Space, hiWord (pciRead s d.fn (d.msiOffset + 0x08)) =
      word s d.fn (d.msiOffset + 0x0A) := fun s => hiWord_pciRead (by omega) (by omega)
  rw [hhigh, hhigh, word_pciEnableMsi hc h, word_msiWritten hc h]
  split_ifs <;> first | rfl | omega

/-- **`pci_enable_msi` programs the capability exactly if** the message
address has 32 bits, or the upper half of its upper register is zero
already: that half is the one it does not write. -/
theorem pciEnableMsi_iff (hc : c.rule = plain) (h : MsiPlaced d) (vector : UInt8) :
    MsiProgrammed c (pciEnableMsi c d vector).1 d vector ↔
      ¬ Is64 c d ∨ hiWord (pciRead c d.fn (d.msiOffset + 0x08)) = 0 := by
  obtain ⟨hlow, heven, h2, h4, h6, h8, h10, h12⟩ := h.halves
  have hwords := word_pciEnableMsi hc h vector
  have hupper := hiWord_upper hc h vector
  generalize hc' : (pciEnableMsi c d vector).1 = c' at hwords hupper ⊢
  have hdata := h.dataOffset_half c
  -- every word of the result, in terms of its position
  have hat := fun o => (hwords o).trans
    (if_congr Iff.rfl rfl (word_msiWritten hc h vector o))
  constructor
  · intro hprog
    by_cases h64 : Is64 c d
    · right
      rw [← hupper, hprog.upper h64]
      rfl
    · exact Or.inl h64
  · intro hcond
    constructor
    · refine word_ext ?_ ?_
      · rw [loWord_pciRead (by omega), hat]
        split_ifs <;> first | rfl | omega
      · have hhigh : hiWord (pciRead c' d.fn (d.msiOffset + 0x04)) =
            word c' d.fn (d.msiOffset + 0x06) := hiWord_pciRead (by omega) (by omega)
        rw [hhigh, hat]
        split_ifs <;> first | rfl | omega
    · intro h64
      obtain ⟨-, hdata⟩ := hdata.resolve_right fun hn => hn.1 h64
      refine word_ext ?_ (hupper.trans (hcond.resolve_left (not_not_intro h64)))
      rw [loWord_pciRead (by omega), hat]
      split_ifs <;> first | rfl | omega
    · rw [hat]
      split_ifs <;> first | rfl | omega
    · rw [hat]
      split_ifs <;> first | rfl | omega
    · have hfour : UInt8.toNat 4 = 4 := rfl
      rw [hat, hfour]
      split_ifs <;> first | rfl | omega
    · intro o ho
      have hfour : UInt8.toNat 4 = 4 := rfl
      unfold msiWords at ho
      simp only [List.forall_mem_append, List.forall_mem_cons] at ho
      obtain ⟨⟨ho4, ho2, hoa, hob, hod, -⟩, hrest⟩ := ho
      rw [hat]
      rcases hdata with ⟨h64, hd⟩ | ⟨h64, hd⟩
      · rw [if_pos h64, List.forall_mem_cons] at hrest
        have ho8 := hrest.1
        split_ifs <;> first | rfl | omega
      · split_ifs <;> first | rfl | omega
    · rw [← hc']
      exact fun a ha => regs_pciEnableMsi ha vector

/-- A device with its MSI capability at 0x50. -/
def msiDevice : Device := { Device.blank with msiCapable := true, msiOffset := 0x50 }

theorem msiPlaced_msiDevice : MsiPlaced msiDevice := ⟨rfl, by decide, by decide, by decide⟩

/-- A capability for an address of 32 bits, in a device that is zero
otherwise. -/
def narrowMsi : Space := ⟨fun a => if a = 0x80000050 then 0x00000005 else 0, plain⟩

theorem pciEnableMsi_iff_narrowMsi :
    MsiProgrammed narrowMsi (pciEnableMsi narrowMsi msiDevice 0x41).1 msiDevice 0x41 :=
  (pciEnableMsi_iff rfl msiPlaced_msiDevice 0x41).2 (Or.inl (by decide))

/-- A capability for an address of 64 bits, which is above 2^48. -/
def wideMsi : Space :=
  ⟨fun a => if a = 0x80000050 then 0x00800005 else if a = 0x80000058 then 0x00010000 else 0, plain⟩

/-- **The address stays above 2^48.** -/
theorem pciEnableMsi_wideMsi :
    ¬ MsiProgrammed wideMsi (pciEnableMsi wideMsi msiDevice 0x41).1 msiDevice 0x41 := by
  intro hprog
  have hkept := hiWord_upper rfl msiPlaced_msiDevice 0x41 (c := wideMsi)
  rw [hprog.upper (by decide)] at hkept
  exact absurd hkept (by decide)

/-! ## The Status register -/

/-- The bits of the Status register that writing a one clears. -/
abbrev errorBits : UInt16 := 0xF900

/-- **The register of Command and Status**: the Command bits in `m` are
written, and of the Status bits those that record an error are cleared
where a one is written. -/
def commandStatus (m : UInt16) (old new : UInt32) : UInt32 :=
  setWord (setWord new false ((loWord old &&& ~~~m) ||| (loWord new &&& m))) true
    (hiWord old &&& ~~~(hiWord new &&& errorBits))

/-- Of the Command bits only these change, and of the Status bits none. -/
def ChangesOnly (c c' : Space) (fn : Fn) (bits : UInt16) : Prop :=
  word c' fn 0x06 = word c fn 0x06 ∧ word c' fn 0x04 &&& ~~~bits = word c fn 0x04 &&& ~~~bits

/-- What is written back to the error bits is what was read from them. -/
theorem land_not_land_eq_self_iff (s m : UInt16) : s &&& ~~~(s &&& m) = s ↔ s &&& m = 0 := by
  constructor
  · intro h
    have hzero : s &&& ~~~(s &&& m) &&& m = 0 := by
      apply UInt16.eq_of_toBitVec_eq
      ext j hj
      cases hs : s.toBitVec[j] <;> simp [hs]
    rwa [h] at hzero
  · intro h
    rw [h]
    simp

theorem command_kept (x m bits : UInt16) :
    ((x &&& ~~~m) ||| ((x ||| bits) &&& m)) &&& ~~~bits = x &&& ~~~bits := by
  apply UInt16.eq_of_toBitVec_eq
  ext j hj
  simp only [UInt16.toBitVec_and, UInt16.toBitVec_or, UInt16.toBitVec_not, BitVec.getElem_and,
    BitVec.getElem_or, BitVec.getElem_not]
  cases x.toBitVec[j] <;> cases m.toBitVec[j] <;> cases bits.toBitVec[j] <;> rfl

/-- Command is the lower half of its register, and Status the upper. -/
theorem word_command (c : Space) (fn : Fn) : word c fn 0x04 = loWord (pciRead c fn 0x04) :=
  (loWord_pciRead (by decide)).symm

theorem word_status (c : Space) (fn : Fn) : word c fn 0x06 = hiWord (pciRead c fn 0x04) :=
  (hiWord_pciRead (by decide) (by decide)).symm

/-- **Setting Command bits changes nothing else exactly if** no error bit
is set in Status. -/
theorem changesOnly_iff {m bits : UInt16}
    (hrule : ∀ old new, c.rule (configAddr d.fn 0x04) old new = commandStatus m old new) :
    ChangesOnly c (pciWriteWord c d 0x04 (word c d.fn 0x04 ||| bits)) d.fn bits ↔
      word c d.fn 0x06 &&& errorBits = 0 := by
  have hlower : decide ((0x04 : UInt8) &&& 2 ≠ 0) = false := by decide
  have hnew : pciRead (pciWriteWord c d 0x04 (word c d.fn 0x04 ||| bits)) d.fn 0x04 =
      commandStatus m (pciRead c d.fn 0x04)
        (setWord (pciRead c d.fn 0x04) false (word c d.fn 0x04 ||| bits)) := by
    rw [pciWriteWord_eq, pciRead_pciWrite_self, hrule, hlower]
  unfold ChangesOnly
  rw [word_status (pciWriteWord ..), word_command (pciWriteWord ..), hnew]
  unfold commandStatus
  simp only [words_setWord, if_true, Bool.false_eq_true, if_false]
  rw [← word_status, ← word_command, command_kept, land_not_land_eq_self_iff]
  exact and_iff_left rfl

/-- No word of the capability is in the register of Command and Status.
Capabilities start at 0x40. -/
def MsiApart (d : Device) : Prop :=
  ∀ k ∈ [0x02, 0x04, 0x06, 0x08, 0x0C], (d.msiOffset + k).toNat / 4 ≠ 1

/-- Where capabilities are, they are apart from it. -/
theorem MsiPlaced.apart (h : MsiPlaced d) : MsiApart d := by
  obtain ⟨hlow, -, h2, h4, h6, h8, -, h12⟩ := h.halves
  unfold MsiApart
  simp only [List.forall_mem_cons]
  exact ⟨by omega, by omega, by omega, by omega, by omega, fun _ hk => absurd hk List.not_mem_nil⟩

/-- Nor does `pci_enable_msi` write that register before it comes to it. -/
theorem msiWritten_command (h : MsiApart d) (vector : UInt8) :
    pciRead (msiWritten c d vector) d.fn 0x04 = pciRead c d.fn 0x04 := by
  have hne : ∀ k ∈ [0x02, 0x04, 0x06, 0x08, 0x0C], (0x04 : UInt8).toNat / 4 ≠
      (d.msiOffset + k).toNat / 4 := fun k hk heq => h k hk heq.symm
  simp only [List.forall_mem_cons] at hne
  obtain ⟨h2, h4, h6, h8, h12, -⟩ := hne
  unfold msiWritten
  dsimp only
  split_ifs
  · rw [pciRead_pciWriteWord_of_ne h2, pciRead_pciWriteWord_of_ne h12,
      pciRead_pciWriteWord_of_ne h8, pciRead_pciWriteWord_of_ne h6, pciRead_pciWriteWord_of_ne h4]
  · rw [pciRead_pciWriteWord_of_ne h2, pciRead_pciWriteWord_of_ne h8,
      pciRead_pciWriteWord_of_ne h6, pciRead_pciWriteWord_of_ne h4]

/-- **The two calls change the Command bits they are for and nothing else
exactly if** no error bit is set in Status, or there is nothing for
`pci_enable_msi` to enable. -/
theorem status_kept_iff {m : UInt16}
    (hrule : ∀ old new, c.rule (configAddr d.fn 0x04) old new = commandStatus m old new)
    (hmsi : d.msiCapable = true → MsiApart d) (vector : UInt8) :
    (ChangesOnly c (pciEnableBusMastering c d) d.fn 0x06 ↔
        word c d.fn 0x06 &&& errorBits = 0) ∧
      (ChangesOnly c (pciEnableMsi c d vector).1 d.fn 0x0400 ↔
        d.msiCapable = false ∨ word c d.fn 0x06 &&& errorBits = 0) := by
  constructor
  · have hbits : pciReadWord c d 0x04 ||| 0x04 ||| 0x02 = word c d.fn 0x04 ||| 0x06 := by
      rw [pciReadWord_eq, UInt16.or_assoc]
      rfl
    unfold pciEnableBusMastering
    rw [hbits]
    exact changesOnly_iff hrule
  · cases hcap : d.msiCapable with
    | false =>
      have hsame : (pciEnableMsi c d vector).1 = c := by
        unfold pciEnableMsi
        rw [hcap]
        rfl
      rw [hsame]
      exact iff_of_true ⟨rfl, rfl⟩ (Or.inl rfl)
    | true =>
      have hreg := msiWritten_command (c := c) (hmsi hcap) vector
      have hrule' : ∀ old new, (msiWritten c d vector).rule (configAddr d.fn 0x04) old new =
          commandStatus m old new := by
        rw [msiWritten_rule]
        exact hrule
      have hiff : ChangesOnly (msiWritten c d vector) (pciWriteWord (msiWritten c d vector) d 0x04
          (word (msiWritten c d vector) d.fn 0x04 ||| 0x0400)) d.fn 0x0400 ↔ _ :=
        changesOnly_iff hrule'
      rw [pciEnableMsi_eq hcap]
      unfold ChangesOnly at hiff ⊢
      simp only [word_status, word_command, hreg] at hiff ⊢
      simpa using hiff

/-- A device that is zero but for its register of Command and Status. -/
def withStatus (r : UInt32) : Space where
  regs a := if a = 0x80000004 then r else 0
  rule a old new := if a = 0x80000004 then commandStatus 0xFFFF old new else new

/-- Where no error is recorded, the two calls do what they are for. -/
theorem status_kept_iff_clear :
    ChangesOnly (withStatus 0x00100001) (pciEnableBusMastering (withStatus 0x00100001) msiDevice)
        msiDevice.fn 0x06 ∧
      ChangesOnly (withStatus 0x00100001) (pciEnableMsi (withStatus 0x00100001) msiDevice 0x41).1
        msiDevice.fn 0x0400 :=
  have h := status_kept_iff (c := withStatus 0x00100001) (d := msiDevice) (m := 0xFFFF)
    (fun _ _ => rfl) (fun _ => msiPlaced_msiDevice.apart) 0x41
  ⟨h.1.2 (by decide), h.2.2 (Or.inr (by decide))⟩

/-- **A recorded abort is cleared** along with what is set in Command. -/
theorem busMastering_clears_status :
    ¬ ChangesOnly (withStatus 0x20100001) (pciEnableBusMastering (withStatus 0x20100001) msiDevice)
        msiDevice.fn 0x06 ∧
      word (withStatus 0x20100001) msiDevice.fn 0x06 = 0x2010 ∧
      word (pciEnableBusMastering (withStatus 0x20100001) msiDevice) msiDevice.fn 0x06 = 0x0010 := by
  unfold ChangesOnly
  decide

end Pci

end Kos
