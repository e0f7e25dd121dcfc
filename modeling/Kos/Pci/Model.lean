import Mathlib.Data.List.Basic
import Mathlib.Logic.Function.Basic
/-!
# Pci — configuration space and the scan

`pci_init`, `pci_find_class` and the two calls that switch a device on.
Configuration space is a register for each address and a rule for what a
write leaves in it: plain storage keeps what is written, a base address
register has bits that stay as they are, a status register has bits that
a one clears. A write changes the register at its address and no other.
-/

namespace Kos

namespace Pci

/-- `MAX_PCI_DEVICES`. -/
abbrev maxPciDevices : ℕ := 256

/-- What each register holds, and what is in it after a write: a function
of its address, what it held and what was written. -/
structure Space where
  regs : UInt32 → UInt32
  rule : UInt32 → UInt32 → UInt32 → UInt32

/-- Storage that keeps what is written to it. -/
def plain (_addr _old new : UInt32) : UInt32 := new

/-- A function of a device on a bus. -/
structure Fn where
  bus : UInt8
  slot : UInt8
  func : UInt8
  deriving DecidableEq, Repr

/-- What is sent to `CONFIG_ADDR`. -/
def configAddr (fn : Fn) (offset : UInt8) : UInt32 :=
  (fn.bus.toUInt32 <<< 16) ||| (fn.slot.toUInt32 <<< 11) ||| (fn.func.toUInt32 <<< 8) |||
    (offset &&& 0xFC).toUInt32 ||| 0x80000000

def pciRead (c : Space) (fn : Fn) (offset : UInt8) : UInt32 :=
  c.regs (configAddr fn offset)

def pciWrite (c : Space) (fn : Fn) (offset : UInt8) (val : UInt32) : Space :=
  let addr := configAddr fn offset
  { c with regs := Function.update c.regs addr (c.rule addr (c.regs addr) val) }

/-- `struct pci_device`. The arrays have six entries each. `sized` is the
list of the base address registers the loop has been through, which the
source does not keep. -/
structure Device where
  fn : Fn
  vendorId : UInt16
  deviceId : UInt16
  classCode : UInt8
  subclass : UInt8
  progIf : UInt8
  revision : UInt8
  bar : ℕ → UInt32
  barPhys : ℕ → UInt64
  barSize : ℕ → UInt64
  barIsMmio : ℕ → Bool
  irqPin : UInt8
  irqLine : UInt8
  msiCapable : Bool
  msiOffset : UInt8
  sized : List ℕ

/-- An entry of the table before it is filled in, which is zero. -/
def Device.blank : Device where
  fn := ⟨0, 0, 0⟩
  vendorId := 0
  deviceId := 0
  classCode := 0
  subclass := 0
  progIf := 0
  revision := 0
  bar := fun _ => 0
  barPhys := fun _ => 0
  barSize := fun _ => 0
  barIsMmio := fun _ => false
  irqPin := 0
  irqLine := 0
  msiCapable := false
  msiOffset := 0
  sized := []

/-- The four assignments to entry `i` of the arrays. -/
def Device.setBar (d : Device) (i : ℕ) (bar : UInt32) (phys size : UInt64) (isMmio : Bool) :
    Device :=
  { d with
    bar := Function.update d.bar i bar
    barPhys := Function.update d.barPhys i phys
    barSize := Function.update d.barSize i size
    barIsMmio := Function.update d.barIsMmio i isMmio
    sized := d.sized ++ [i] }

/-- `0x10 + i * 4`. -/
def barOffset (i : ℕ) : UInt8 := UInt8.ofNat (0x10 + i * 4)

/-- The size read back, `(~(sz & 0xFFFFFFF0)) + 1`. The sum is of 32 bits
and is widened after it. -/
def barSizeOf (sz : UInt32) : UInt64 := (~~~(sz &&& 0xFFFFFFF0) + 1).toUInt64

/-- The loop body for register `i`, and the index the loop goes on from. -/
def probeBar (fn : Fn) (i : ℕ) (c : Space) (d : Device) : Space × Device × ℕ :=
  let old := pciRead c fn (barOffset i)
  let c := pciWrite c fn (barOffset i) 0xFFFFFFFF
  let sz := pciRead c fn (barOffset i)
  let c := pciWrite c fn (barOffset i) old
  if sz = 0 ∨ sz = 0xFFFFFFFF then (c, d.setBar i 0 0 0 false, i + 1)
  else if old &&& 0x04 ≠ 0 then
    let hi := pciRead c fn (barOffset (i + 1))
    let phys := (hi.toUInt64 <<< 32) ||| (old &&& 0xFFFFFFF0).toUInt64
    -- the body skips the upper half itself
    (c, d.setBar i old phys (barSizeOf sz) (old &&& 1 == 0), i + 2)
  else
    (c, d.setBar i old (old &&& 0xFFFFFFF0).toUInt64 (barSizeOf sz) (old &&& 1 == 0), i + 1)

/-- The loop over the base address registers, from register `i`. Each turn
moves the index on, so `6 - i` turns are enough. -/
def probeBars (fn : Fn) : ℕ → ℕ → Space → Device → Space × Device
  | 0, _, c, d => (c, d)
  | n + 1, i, c, d =>
    if i < 6 then
      let p := probeBar fn i c d
      probeBars fn n p.2.2 p.1 p.2.1
    else (c, d)

/-- The capability walk from pointer `p`, for at most `fuel` capabilities.
`none` is a walk that is not at its end by then. -/
def capWalk (c : Space) (fn : Fn) : ℕ → UInt8 → Device → Option Device
  | 0, _, _ => none
  | fuel + 1, p, d =>
    if p = 0 then some d
    else
      let capId := (pciRead c fn p).toUInt8
      let d := if capId = 0x05 then { d with msiCapable := true, msiOffset := p } else d
      let next := (pciRead c fn p >>> 8).toUInt8
      if next = 0 then some d else capWalk c fn fuel next d

/-- What an entry is filled in with up to the capability walk. Reads do not
change configuration space. -/
def probeFunction (c : Space) (fn : Fn) (vendor : UInt32) : Space × Device :=
  let cls := pciRead c fn 0x08
  probeBars fn 6 0 c
    { Device.blank with
      fn := fn
      vendorId := vendor.toUInt16
      deviceId := (vendor >>> 16).toUInt16
      classCode := (cls >>> 24).toUInt8
      subclass := (cls >>> 16).toUInt8
      progIf := (cls >>> 8).toUInt8
      revision := cls.toUInt8
      irqLine := (pciRead c fn 0x3C).toUInt8
      irqPin := (pciRead c fn 0x3D >>> 8).toUInt8 }

/-- The body of the loop over functions, for one that has an entry. -/
def initFunction (fuel : ℕ) (c : Space) (fn : Fn) (vendor : UInt32) : Option (Space × Device) :=
  let p := probeFunction c fn vendor
  (capWalk p.1 fn fuel (pciRead p.1 fn 0x34).toUInt8 { p.2 with msiCapable := false }).map
    fun d => (p.1, d)

/-- Configuration space and the first `device_count` entries of `devices`. -/
structure State where
  conf : Space
  devices : List Device

/-- `(vendor & 0xFFFF) == 0xFFFF`. -/
def absent (vendor : UInt32) : Bool := vendor &&& 0xFFFF == 0xFFFF

/-- The loop over the functions of a slot. -/
def scanFuncs (fuel : ℕ) (bus slot : UInt8) : List UInt8 → State → Option State
  | [], st => some st
  | func :: funcs, st =>
    let fn : Fn := ⟨bus, slot, func⟩
    let vendor := pciRead st.conf fn 0
    if absent vendor then scanFuncs fuel bus slot funcs st
    -- the `break` leaves this loop and not the two around it
    else if maxPciDevices ≤ st.devices.length then some st
    else
      match initFunction fuel st.conf fn vendor with
      | none => none
      | some (conf, dev) => scanFuncs fuel bus slot funcs ⟨conf, st.devices ++ [dev]⟩

/-- The numbers below `n`, as a counter of eight bits has them. -/
def upTo (n : ℕ) : List UInt8 := (List.range n).map UInt8.ofNat

/-- The body of the loop over slots. -/
def scanSlot (fuel : ℕ) (bus slot : UInt8) (st : State) : Option State :=
  let vendor := pciRead st.conf ⟨bus, slot, 0⟩ 0
  if absent vendor then some st
  else
    let header := (pciRead st.conf ⟨bus, slot, 0⟩ 0x0E >>> 16).toUInt8
    let funcs := if header &&& 0x80 ≠ 0 then 8 else 1
    scanFuncs fuel bus slot (upTo funcs) st

/-- `pci_init`, with `fuel` for each capability walk. The bus is counted in
16 bits and passed on in eight. -/
def pciInit (fuel : ℕ) (c : Space) : Option State :=
  (upTo 256).foldlM
    (fun st bus => (upTo 32).foldlM (fun st slot => scanSlot fuel bus slot st) st) ⟨c, []⟩

/-- The class code as `pci_find_class` puts it together. -/
def classOf (d : Device) : UInt32 :=
  (d.classCode.toUInt32 <<< 16) ||| (d.subclass.toUInt32 <<< 8) ||| d.progIf.toUInt32

/-- `pci_find_class` from entry `i` on: the index of the entry it points
to. -/
def pciFindClass (code : UInt32) : List Device → ℕ → Option ℕ
  | [], _ => none
  | d :: ds, i => if classOf d = code then some i else pciFindClass code ds (i + 1)

def pciReadDword (c : Space) (d : Device) (offset : UInt8) : UInt32 := pciRead c d.fn offset

def pciReadWord (c : Space) (d : Device) (offset : UInt8) : UInt16 :=
  let dw := pciRead c d.fn (offset &&& ~~~3)
  if offset &&& 2 ≠ 0 then (dw >>> 16).toUInt16 else dw.toUInt16

/-- `pci_write_word`, which spells out the address of `pci_write`. -/
def pciWriteWord (c : Space) (d : Device) (offset : UInt8) (val : UInt16) : Space :=
  let dw := pciReadDword c d (offset &&& ~~~3)
  let dw : UInt32 :=
    if offset &&& 2 ≠ 0 then (dw &&& (0xFFFF : UInt32)) ||| (val.toUInt32 <<< 16)
    else (dw &&& 0xFFFF0000) ||| val.toUInt32
  pciWrite c d.fn offset dw

def pciEnableBusMastering (c : Space) (d : Device) : Space :=
  pciWriteWord c d 0x04 (pciReadWord c d 0x04 ||| 0x04 ||| 0x02)

/-- `pci_enable_msi`: the space it leaves, and what it returns. -/
def pciEnableMsi (c : Space) (d : Device) (vector : UInt8) : Space × Bool :=
  if !d.msiCapable then (c, false)
  else
    let msgCtrl := pciReadWord c d (d.msiOffset + 0x02)
    let msgAddr : UInt64 := 0xFEE00000
    let c := pciWriteWord c d (d.msiOffset + 0x04) (msgAddr &&& 0xFFFF).toUInt16
    let c := pciWriteWord c d (d.msiOffset + 0x06) (msgAddr >>> 16).toUInt16
    let c :=
      if msgCtrl &&& 0x80 ≠ 0 then
        let c := pciWriteWord c d (d.msiOffset + 0x08) (msgAddr >>> 32).toUInt16
        pciWriteWord c d (d.msiOffset + 0x0C) vector.toUInt16
      else pciWriteWord c d (d.msiOffset + 0x08) vector.toUInt16
    let c := pciWriteWord c d (d.msiOffset + 0x02) (msgCtrl ||| 0x01)
    let cmd := pciReadWord c d 0x04
    (pciWriteWord c d 0x04 (cmd ||| 0x0400), true)

end Pci

end Kos
