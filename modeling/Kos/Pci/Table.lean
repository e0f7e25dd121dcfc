import Mathlib.Algebra.Order.BigOperators.Group.List
import Kos.Pci.Scan
/-!
# Pci — what the table says

After the scan the table has the functions that are listed, in the order
of their addresses and up to its capacity, with the identity each has in
configuration space. `pci_find_class` looks through it from the front.
-/

namespace Kos

namespace Pci

variable {c : Space} {fn : Fn} {d : Device} {st : State} {fuel : ℕ}

/-- **The entry identifies its function** as configuration space does. -/
structure Describes (c : Space) (d : Device) : Prop where
  vendorId : d.vendorId = (pciRead c d.fn 0x00).toUInt16
  deviceId : d.deviceId = (pciRead c d.fn 0x00 >>> 16).toUInt16
  classCode : d.classCode = (pciRead c d.fn 0x08 >>> 24).toUInt8
  subclass : d.subclass = (pciRead c d.fn 0x08 >>> 16).toUInt8
  progIf : d.progIf = (pciRead c d.fn 0x08 >>> 8).toUInt8
  revision : d.revision = (pciRead c d.fn 0x08).toUInt8

/-- The function of an entry, and its identity. -/
theorem entry_some (h : entry fuel c fn = some d) : d.fn = fn ∧ Describes c d := by
  obtain ⟨p, hp, rfl⟩ := Option.map_eq_some_iff.1 h
  obtain ⟨-, capable, offset, hd⟩ := initFunction_some hp
  have hid : p.2.ident = (probeFunction c fn (pciRead c fn 0)).2.ident := by
    rw [hd]
    rfl
  rw [probeFunction, probeBars_ident] at hid
  unfold Device.ident at hid
  simp only [Prod.mk.injEq] at hid
  obtain ⟨hfn, hvendor, hdevice, hclass, hsub, hprog, hrev⟩ := hid
  refine ⟨hfn, ?_⟩
  constructor <;> rw [hfn] <;> assumption

/-- The identity that configuration space has of a function. -/
def identOf (c : Space) (fn : Fn) : Fn × UInt16 × UInt16 × UInt8 × UInt8 × UInt8 × UInt8 :=
  (fn, (pciRead c fn 0x00).toUInt16, (pciRead c fn 0x00 >>> 16).toUInt16,
    (pciRead c fn 0x08 >>> 24).toUInt8, (pciRead c fn 0x08 >>> 16).toUInt8,
    (pciRead c fn 0x08 >>> 8).toUInt8, (pciRead c fn 0x08).toUInt8)

/-! ## Looking for a class -/

/-- The three bytes of the class, as one number. -/
def HasClass (code : UInt32) (d : Device) : Prop :=
  code.toNat = 2 ^ 16 * d.classCode.toNat + 2 ^ 8 * d.subclass.toNat + d.progIf.toNat

/-- The class is part of the identity. -/
theorem hasClass_iff {code : UInt32} {x : Fn × UInt16 × UInt16 × UInt8 × UInt8 × UInt8 × UInt8}
    (h : d.ident = x) : HasClass code d ↔ code.toNat =
      2 ^ 16 * x.2.2.2.1.toNat + 2 ^ 8 * x.2.2.2.2.1.toNat + x.2.2.2.2.2.1.toNat := by
  subst h
  rfl

theorem classOf_eq_iff {code : UInt32} : classOf d = code ↔ HasClass code d := by
  have hclass := d.classCode.toNat_lt
  have hsub := d.subclass.toNat_lt
  have hprog := d.progIf.toNat_lt
  have h16 : UInt32.toNat 16 % 32 = 16 := rfl
  have h8 : UInt32.toNat 8 % 32 = 8 := rfl
  rw [← UInt32.toNat_inj, HasClass, eq_comm]
  unfold classOf
  simp only [UInt32.toNat_or, UInt32.toNat_shiftLeft, UInt8.toNat_toUInt32, Nat.shiftLeft_eq]
  rw [h16, h8, Nat.mod_eq_of_lt (by omega), Nat.mod_eq_of_lt (by omega), Nat.lor_assoc,
    mul_comm _ (2 ^ 16), mul_comm _ (2 ^ 8), two_pow_mul_lor (k := 8) (by omega),
    two_pow_mul_lor (k := 16) (by omega), ← Nat.add_assoc]

theorem pciFindClass_eq (code : UInt32) (ds : List Device) (i : ℕ) :
    pciFindClass code ds i = (ds.findIdx? fun d => classOf d == code).map (· + i) := by
  induction ds generalizing i with
  | nil => rfl
  | cons d ds ih =>
    rw [pciFindClass, List.findIdx?_cons]
    by_cases hd : classOf d = code
    · simp [hd]
    · simp [hd, ih, Option.map_map, Function.comp_def, Nat.add_assoc, Nat.add_comm 1]

/-- **The first entry of the class, or none if none is of it.** -/
structure FindsFirst (code : UInt32) (ds : List Device) (r : Option ℕ) : Prop where
  null : r = none ↔ ∀ d ∈ ds, ¬ HasClass code d
  first : ∀ i, r = some i ↔ ∃ h : i < ds.length, HasClass code ds[i] ∧
    ∀ j (hj : j < i), ¬ HasClass code ds[j]

theorem pciFindClass_finds (code : UInt32) (ds : List Device) :
    FindsFirst code ds (pciFindClass code ds 0) := by
  have hidx : pciFindClass code ds 0 = ds.findIdx? fun d => classOf d == code := by
    rw [pciFindClass_eq]
    exact Option.map_id_apply
  constructor
  · simp [hidx, List.findIdx?_eq_none_iff, classOf_eq_iff]
  · intro i
    simp [hidx, List.findIdx?_eq_some_iff_getElem, classOf_eq_iff]

/-! ## The table -/

/-- The capability walk of the function comes to an end. -/
def WalkEnds (c : Space) (fn : Fn) : Prop := ∃ fuel, (entry fuel c fn).isSome

theorem entry_isSome_mono {n m : ℕ} (h : (entry n c fn).isSome) (hle : n ≤ m) :
    (entry m c fn).isSome := by
  obtain ⟨d, hd⟩ := Option.isSome_iff_exists.1 h
  obtain ⟨p, hp, -⟩ := Option.map_eq_some_iff.1 hd
  rw [entry, initFunction_mono hp hle]
  rfl

/-- Walks that end do so with the same fuel. -/
theorem exists_fuel {l : List Fn} (h : ∀ fn ∈ l, WalkEnds c fn) :
    ∃ n, ∀ fuel ≥ n, ∀ fn ∈ l, (entry fuel c fn).isSome := by
  choose! fuel hfuel using h
  refine ⟨(l.map fuel).sum, fun n hn fn hfn => entry_isSome_mono (hfuel fn hfn) ?_⟩
  exact (List.le_sum_of_mem (List.mem_map_of_mem hfn)).trans hn

/-- **A function gets an entry** exactly if it is one of those that are
entered and the walks of all of these come to an end. -/
theorem pciInit_enters_iff : (∃ fuel st, pciInit fuel c = some st ∧ ∃ d ∈ st.devices, d.fn = fn) ↔
    fn ∈ entered c ∧ ∀ f ∈ entered c, WalkEnds c f := by
  constructor
  · rintro ⟨fuel, st, hst, d, hd, rfl⟩
    obtain ⟨f, hf, hentry⟩ := (mem_devices hst).1 hd
    have hsome : (pciInit fuel c).isSome := by rw [hst, Option.isSome_some]
    rw [(entry_some hentry).1]
    exact ⟨hf, fun f hf => ⟨fuel, (pciInit_isSome fuel c).1 hsome f hf⟩⟩
  · rintro ⟨hfn, hends⟩
    obtain ⟨n, hn⟩ := exists_fuel hends
    have hall := hn n (le_refl n)
    obtain ⟨st, hst⟩ := Option.isSome_iff_exists.1 ((pciInit_isSome n c).2 hall)
    obtain ⟨d, hd⟩ := Option.isSome_iff_exists.1 (hall fn hfn)
    exact ⟨n, st, hst, d, (mem_devices hst).2 ⟨fn, hfn, hd⟩, (entry_some hd).1⟩

/-- **The table after the scan**: the functions that are listed, each once
and in the order of their addresses, as many as there is room for, with
the identity they have in configuration space. The scan comes to an end
if the walks it makes do. -/
theorem pciInit_table (c : Space) (h : ∀ fn ∈ entered c, WalkEnds c fn) :
    ∃ n, ∀ fuel ≥ n, ∃ st, pciInit fuel c = some st ∧
      (∃ l : List Fn, l.Pairwise Fn.Before ∧ (∀ fn, fn ∈ l ↔ Listed c fn) ∧
        st.devices.map Device.fn = l.take maxPciDevices) ∧
      (∀ d ∈ st.devices, Describes c d) ∧
      ∀ code, FindsFirst code st.devices (pciFindClass code st.devices 0) := by
  obtain ⟨n, hn⟩ := exists_fuel h
  refine ⟨n, fun fuel hfuel => ?_⟩
  obtain ⟨st, hst⟩ := Option.isSome_iff_exists.1 ((pciInit_isSome fuel c).2 (hn fuel hfuel))
  obtain ⟨hdevices, -⟩ := pciInit_some hst
  refine ⟨st, hst, ⟨inOrder c, pairwise_inOrder c, fun fn => mem_inOrder, ?_⟩, ?_,
    fun code => pciFindClass_finds code st.devices⟩
  · -- each entry is of the function it was made for
    have hfn : ∀ fn ∈ entered c, (entry fuel c fn).map Device.fn = some fn := by
      intro fn hfn
      obtain ⟨d, hd⟩ := Option.isSome_iff_exists.1 (hn fuel hfuel fn hfn)
      rw [hd, Option.map_some, (entry_some hd).1]
    have hmap := congrArg (List.map (Option.map Device.fn)) hdevices
    rw [List.map_map, List.map_map] at hmap
    have hsome : (st.devices.map Device.fn).map some = (entered c).map some := by
      rw [List.map_map]
      exact hmap.trans (List.map_congr_left hfn)
    exact List.map_injective_iff.2 (Option.some_injective _) hsome
  · intro d hd
    obtain ⟨fn, -, hentry⟩ := (mem_devices hst).1 hd
    exact (entry_some hentry).2

/-- **The identity of an entry** is read off its function. -/
theorem Describes.ident_eq (h : Describes c d) : d.ident = identOf c d.fn := by
  unfold Device.ident identOf
  rw [h.vendorId, h.deviceId, h.classCode, h.subclass, h.progIf, h.revision]

/-- A function with two capabilities. -/
def card (id cls header : UInt32) (o : UInt8) : UInt32 :=
  if o = 0x00 then id else if o = 0x08 then cls else if o = 0x0C then header
  else if o = 0x34 then 0x40 else if o = 0x40 then 0x5001 else if o = 0x50 then 0x0005 else 0

/-- Two buses: a bridge and a disk in one device, a function without a
function 0, two functions that have no multifunction bit, and a second
network controller behind the bridge. -/
def twoBuses : List (Fn × (UInt8 → UInt32)) :=
  [(⟨0, 3, 0⟩, card 0x12378086 0x06000002 0x00800000), (⟨0, 3, 2⟩, card 0x70108086 0x01018000 0),
    (⟨0, 5, 1⟩, card 0x70118086 0x0C030000 0), (⟨0, 7, 0⟩, card 0x100E8086 0x02000003 0),
    (⟨0, 7, 4⟩, card 0x100E8086 0x02000003 0), (⟨1, 0, 0⟩, card 0x10D38086 0x02000000 0)]

theorem inOrder_twoBuses :
    inOrder (populated twoBuses plain) = [⟨0, 3, 0⟩, ⟨0, 3, 2⟩, ⟨0, 7, 0⟩, ⟨1, 0, 0⟩] :=
  inOrder_populated (by decide) (by simp [Fn.Before]) (by decide +kernel) (by decide +kernel)

/-- **Four of the six are in the table**, and the first network controller
is the third of them. -/
theorem pciInit_table_twoBuses :
    ∃ fuel st, pciInit fuel (populated twoBuses plain) = some st ∧
      st.devices.map Device.ident =
        [(⟨0, 3, 0⟩, 0x8086, 0x1237, 0x06, 0x00, 0x00, 0x02),
          (⟨0, 3, 2⟩, 0x8086, 0x7010, 0x01, 0x01, 0x80, 0x00),
          (⟨0, 7, 0⟩, 0x8086, 0x100E, 0x02, 0x00, 0x00, 0x03),
          (⟨1, 0, 0⟩, 0x8086, 0x10D3, 0x02, 0x00, 0x00, 0x00)] ∧
      pciFindClass 0x020000 st.devices 0 = some 2 := by
  have hends : ∀ fn ∈ entered (populated twoBuses plain),
      WalkEnds (populated twoBuses plain) fn := by
    rw [entered, inOrder_twoBuses]
    intro fn hfn
    have hwalk : ∀ fn ∈ [(⟨0, 3, 0⟩ : Fn), ⟨0, 3, 2⟩, ⟨0, 7, 0⟩, ⟨1, 0, 0⟩],
        (entry 2 (populated twoBuses plain) fn).isSome := by decide +kernel
    exact ⟨2, hwalk fn hfn⟩
  obtain ⟨n, hn⟩ := pciInit_table (populated twoBuses plain) hends
  obtain ⟨st, hst, ⟨l, hl, hlisted, hdev⟩, hdesc, hfind⟩ := hn n (le_refl n)
  have horder : l = [⟨0, 3, 0⟩, ⟨0, 3, 2⟩, ⟨0, 7, 0⟩, ⟨1, 0, 0⟩] :=
    (inOrder_eq hl hlisted).symm.trans inOrder_twoBuses
  have hident : st.devices.map Device.ident =
      (st.devices.map Device.fn).map (identOf (populated twoBuses plain)) := by
    rw [List.map_map]
    exact List.map_congr_left fun d hd => (hdesc d hd).ident_eq
  rw [hdev, horder] at hident
  refine ⟨n, st, hst, hident, ((hfind 0x020000).first 2).2 ?_⟩
  obtain ⟨bridge, ds, hds, hbridge, hident⟩ := List.map_eq_cons_iff.1 hident
  obtain ⟨disk, ds', rfl, hdisk, hident⟩ := List.map_eq_cons_iff.1 hident
  obtain ⟨card, ds'', rfl, hcard, -⟩ := List.map_eq_cons_iff.1 hident
  have hclass : HasClass 0x020000 card := (hasClass_iff hcard).2 rfl
  rw [hds]
  refine ⟨by simp, hclass, fun j hj => ?_⟩
  interval_cases j
  · exact fun hc => absurd ((hasClass_iff hbridge).1 hc) (by decide +kernel)
  · exact fun hc => absurd ((hasClass_iff hdisk).1 hc) (by decide +kernel)

end Pci

end Kos
