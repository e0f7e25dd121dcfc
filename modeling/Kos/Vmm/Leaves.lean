import Kos.Vmm.Calls
/-!
# Vmm — what a leaf with attributes translates to

`vmm_get_phys` takes the address out of a leaf with a mask that clears
the low bits and keeps all others. The low attributes go with it; the
one attribute above the address, `PT_NX`, stays in what is returned.
-/

namespace Kos

namespace Vmm

open Radix

variable {s : Mm} {root e virt phys flags : ℕ}

/-! ## Flag words -/

/-- `PT_NX`. -/
abbrev ptNx : ℕ := 0x8000000000000000

/-- The flags of `kernel.h`, from `PT_PRESENT` to `PT_GLOBAL`, and `PT_NX`. -/
def ptFlags : List ℕ := [0x001, 0x002, 0x004, 0x008, 0x010, 0x020, 0x040, 0x080, 0x100, ptNx]

/-- **A word made of flags.** -/
def FlagWord (flags : ℕ) : Prop := ∃ l : List ℕ, l ⊆ ptFlags ∧ flags = l.foldl (· ||| ·) 0

/-- The part of a flag word below the address, and the part above it. -/
def Attributes (flags low high : ℕ) : Prop :=
  low < 2 ^ 9 ∧ (high = 0 ∨ high = ptNx) ∧ flags = low ||| high

theorem Attributes.or {f f' low low' high high' : ℕ} (h : Attributes f low high)
    (h' : Attributes f' low' high') : Attributes (f ||| f') (low ||| low') (high ||| high') := by
  obtain ⟨hlow, hhigh, rfl⟩ := h
  obtain ⟨hlow', hhigh', rfl⟩ := h'
  refine ⟨Nat.or_lt_two_pow hlow hlow', ?_, ?_⟩
  · rcases hhigh with rfl | rfl <;> rcases hhigh' with rfl | rfl <;> decide
  · rw [Nat.or_assoc, Nat.or_assoc, Nat.or_left_comm high]

theorem attributes_of_mem {f : ℕ} (h : f ∈ ptFlags) : ∃ low high, Attributes f low high := by
  rcases Nat.lt_or_ge f (2 ^ 9) with hlt | hge
  · exact ⟨f, 0, hlt, Or.inl rfl, (Nat.or_zero f).symm⟩
  · refine ⟨0, f, by decide, Or.inr ?_, (Nat.zero_or f).symm⟩
    have hall : ∀ f ∈ ptFlags, 2 ^ 9 ≤ f → f = ptNx := by decide
    exact hall f h hge

/-- **A flag word has its attributes below bit 9, but for `PT_NX`.** -/
theorem FlagWord.attributes (h : FlagWord flags) : ∃ low high, Attributes flags low high := by
  obtain ⟨l, hl, rfl⟩ := h
  have hfold : ∀ (l : List ℕ) (acc : ℕ), l ⊆ ptFlags → (∃ low high, Attributes acc low high) →
      ∃ low high, Attributes (l.foldl (· ||| ·) acc) low high := by
    intro l
    induction l with
    | nil => exact fun acc _ hacc => hacc
    | cons f l ih =>
      rintro acc hl ⟨low, high, hacc⟩
      obtain ⟨low', high', hf⟩ := attributes_of_mem (hl List.mem_cons_self)
      exact ih (acc ||| f) (fun x hx => hl (List.mem_cons_of_mem f hx)) ⟨_, _, hacc.or hf⟩
  exact hfold l 0 hl ⟨0, 0, by decide, Or.inl rfl, rfl⟩

theorem Attributes.land_ptNx {low high : ℕ} (h : Attributes flags low high) :
    flags &&& ptNx = high := by
  obtain ⟨hlow, hhigh, rfl⟩ := h
  have hzero : low &&& 2 ^ 63 = 0 := by
    rw [Nat.and_two_pow, Nat.testBit_lt_two_pow (by omega)]
    rfl
  rw [Nat.and_or_distrib_right, show ptNx = 2 ^ 63 from rfl, hzero, Nat.zero_or]
  rcases hhigh with rfl | rfl <;> rfl

/-- The attribute above the address is clear of every offset. -/
theorem Attributes.high_mod {low high : ℕ} (h : Attributes flags low high) : high % 2097152 = 0 := by
  rcases h.2.1 with rfl | rfl <;> decide

/-- Joining the attribute above the address is addition. -/
theorem lor_high {x high : ℕ} (hx : x < 2 ^ 63) (hhigh : high = 0 ∨ high = ptNx) :
    x ||| high = high + x := by
  rcases hhigh with rfl | rfl
  · rw [Nat.or_zero, Nat.zero_add]
  · have hadd := two_pow_mul_lor (a := 1) hx
    rw [Nat.mul_one] at hadd
    rw [Nat.or_comm]
    exact hadd

/-! ## Entries with attributes -/

/-- **An entry made for a page** keeps its address apart from the low
attributes, and together with the high one. -/
theorem pageEntry_eq {low high : ℕ} (h : Attributes flags low high) (hp : phys < 2 ^ 52)
    (hal : phys % pageSize = 0) : (phys &&& pageMask) ||| flags = high + (phys + low) := by
  obtain ⟨hlow, hhigh, rfl⟩ := h
  have hround : phys &&& pageMask = 2 ^ 12 * (phys / 4096) := land_pageMask (by omega)
  have hphys : 2 ^ 12 * (phys / 4096) = phys := by
    simp only [pageSize] at hal
    omega
  rw [← Nat.or_assoc, hround, two_pow_mul_lor (by omega), hphys, lor_high (by omega) hhigh]

/-- **An entry made for a huge page.** -/
theorem hugeEntry_eq {low high : ℕ} (h : Attributes flags low high) (hp : phys < 2 ^ 52)
    (hal : phys % hugePageSize = 0) :
    (phys &&& hugeMask) ||| flags ||| ptHuge = high + (phys + (low ||| ptHuge)) := by
  obtain ⟨hlow, hhigh, rfl⟩ := h
  have hround : phys &&& hugeMask = 2 ^ 21 * (phys / 2097152) := land_highMask (by omega) (by decide)
  have hlow' : low ||| ptHuge < 2 ^ 9 := Nat.or_lt_two_pow hlow (by decide)
  have hphys : 2 ^ 21 * (phys / 2097152) = phys := by
    simp only [hugePageSize] at hal
    omega
  have hcomm : low ||| high ||| ptHuge = low ||| ptHuge ||| high := by
    rw [Nat.or_assoc, Nat.or_comm high, ← Nat.or_assoc]
  rw [Nat.or_assoc, hcomm, ← Nat.or_assoc, hround, two_pow_mul_lor (by omega), hphys,
    lor_high (by omega) hhigh]

theorem isPresent_add {low : ℕ} {a : ℕ} (ha : a % 2 = 0) :
    isPresent (a + low) = isPresent low := by
  rw [isPresent_eq, isPresent_eq, Nat.testBit_zero, Nat.testBit_zero, Nat.add_mod, ha, Nat.zero_add,
    Nat.mod_mod]

theorem Attributes.present {low high : ℕ} (h : Attributes flags low high) :
    isPresent low = isPresent flags := by
  obtain ⟨-, hhigh, rfl⟩ := h
  rw [isPresent_eq, isPresent_eq, Nat.testBit_or]
  rcases hhigh with rfl | rfl
  · rw [Nat.zero_testBit, Bool.or_false]
  · rw [show ptNx.testBit 0 = false from rfl, Bool.or_false]

/-- What the leaf of a page maps to. -/
theorem leafFrame_pageEntry (h : FlagWord flags) (hpres : isPresent flags = true)
    (hp : phys < 2 ^ 52) (hal : phys % pageSize = 0) :
    leafFrame ((phys &&& pageMask) ||| flags) = some ((flags &&& ptNx) + phys) := by
  obtain ⟨low, high, hattr⟩ := h.attributes
  have hlow := hattr.1
  have hhigh := hattr.high_mod
  simp only [pageSize] at hal
  rw [pageEntry_eq hattr hp hal, ← Nat.add_assoc, hattr.land_ptNx, leafFrame,
    isPresent_add (by omega), hattr.present, if_pos hpres]
  congr 1
  simp only [roundTo, pageSize]
  omega

/-- What the leaf of a huge page maps to. -/
theorem leafRegion_hugeEntry (h : FlagWord flags) (hpres : isPresent flags = true)
    (hp : phys < 2 ^ 52) (hal : phys % hugePageSize = 0) :
    leafRegion ((phys &&& hugeMask) ||| flags ||| ptHuge) = .huge ((flags &&& ptNx) + phys) := by
  obtain ⟨low, high, hattr⟩ := h.attributes
  have hlow : low ||| ptHuge < 2 ^ 9 := Nat.or_lt_two_pow hattr.1 (by decide)
  have hhigh := hattr.high_mod
  have hpage : isPresent (low ||| ptHuge) = true := by
    rw [isPresent_eq, Nat.testBit_or, ← isPresent_eq, hattr.present, hpres, Bool.true_or]
  simp only [hugePageSize] at hal
  rw [hugeEntry_eq hattr hp hal, ← Nat.add_assoc, hattr.land_ptNx, leafRegion,
    isPresent_add (by omega), if_pos hpage]
  congr 1
  simp only [roundTo, hugePageSize]
  omega

/-- A flag word has 64 bits. -/
theorem FlagWord.lt (h : FlagWord flags) : flags < 2 ^ 64 := by
  obtain ⟨low, high, hlow, hhigh, rfl⟩ := h.attributes
  rw [lor_high (by omega) hhigh]
  rcases hhigh with rfl | rfl
  · omega
  · simp only [ptNx]
    omega

theorem hugeEntry_lt (phys : ℕ) (hflags : flags < 2 ^ 64) :
    (phys &&& hugeMask) ||| flags ||| ptHuge < 2 ^ 64 :=
  Nat.or_lt_two_pow (Nat.or_lt_two_pow (Nat.and_lt_two_pow _ (by decide)) hflags) (by decide)

/-! ## Translations through a leaf -/

/-- **After `vmm_map_huge_page`** the region is what the entry says, and
the others are what they were. -/
theorem vmmMapHugePage_translate (h : Wf s.tables root) (hf : Fresh s root)
    (hlt : (phys &&& hugeMask) ||| flags ||| ptHuge < 2 ^ 64) (a : ℕ) :
    vmmGetPhys (vmmMapHugePage s root virt phys flags).2.tables root a =
      if (vmmMapHugePage s root virt phys flags).1 = true ∧ regionOf a = regionOf virt then
        (leafRegion ((phys &&& hugeMask) ||| flags ||| ptHuge)).translate a
      else vmmGetPhys s.tables root a := by
  obtain ⟨hwf, hregions⟩ : Wf (vmmMapHugePage s root virt phys flags).2.tables root ∧ _ :=
    vmmMapHugePage_regions h hf hlt
  rw [hwf.vmmGetPhys_eq, h.vmmGetPhys_eq, hregions _ (regionOf_lt a)]
  split <;> rfl

section Recursive

variable (h : Wf s.tables root) (hf : Fresh s root) (hroot : root ∉ s.pmm)
  (hslot : pml4Index virt ≠ recursiveIndex)
include h hf hroot hslot

/-- A page that was mapped, in a hierarchy with a recursive entry. -/
theorem vmmGetPhys_mapped (hlt : (phys &&& pageMask) ||| flags < 2 ^ 64)
    (hnh : ∀ base, absRegion s.tables root (regionOf virt) ≠ .huge base)
    (hok : (vmmMapPage (s.put root recursiveIndex e) root virt phys flags).1 = true) :
    vmmGetPhys (vmmMapPage (s.put root recursiveIndex e) root virt phys flags).2.tables root virt =
      (leafFrame ((phys &&& pageMask) ||| flags)).elim 0 (· + virt % pageSize) := by
  rw [vmmMapPage_put h hf hroot hnh hslot] at hok ⊢
  rw [put_tables, vmmGetPhys_set (vmmMapPage_regions h hf hlt hnh).1 hslot,
    vmmMapPage_translate h hf hlt hnh, if_pos ⟨hok, rfl⟩]

/-- A region that was mapped, in a hierarchy with a recursive entry. -/
theorem vmmGetPhys_mapped_huge {a : ℕ} (hlt : (phys &&& hugeMask) ||| flags ||| ptHuge < 2 ^ 64)
    (hok : (vmmMapHugePage (s.put root recursiveIndex e) root virt phys flags).1 = true)
    (ha : regionOf a = regionOf virt) :
    vmmGetPhys (vmmMapHugePage (s.put root recursiveIndex e) root virt phys flags).2.tables root a =
      (leafRegion ((phys &&& hugeMask) ||| flags ||| ptHuge)).translate a := by
  have hslot' : pml4Index a ≠ recursiveIndex := by
    rw [pml4Index_eq] at hslot ⊢
    rwa [ha]
  rw [vmmMapHugePage_put h hf hroot hslot] at hok ⊢
  rw [put_tables, vmmGetPhys_set (vmmMapHugePage_regions h hf hlt).1 hslot',
    vmmMapHugePage_translate h hf hlt, if_pos ⟨hok, ha⟩]

/-- **`vmm_get_phys` returns the address exactly where `PT_NX` is not
set.** The other attributes never show in it; this one does, for a page
as for a huge page. -/
theorem vmmGetPhys_eq_iff_no_ptNx (hflags : FlagWord flags) (hpres : isPresent flags = true) :
    (∀ phys < 2 ^ 52, phys % pageSize = 0 →
      (∀ base, absRegion s.tables root (regionOf virt) ≠ .huge base) →
      (vmmMapPage (s.put root recursiveIndex e) root virt phys flags).1 = true →
      (vmmGetPhys (vmmMapPage (s.put root recursiveIndex e) root virt phys flags).2.tables root virt =
        phys + virt % pageSize ↔ flags &&& ptNx = 0)) ∧
    ∀ phys < 2 ^ 52, phys % hugePageSize = 0 →
      (vmmMapHugePage (s.put root recursiveIndex e) root virt phys flags).1 = true →
      (vmmGetPhys (vmmMapHugePage (s.put root recursiveIndex e) root virt phys flags).2.tables root
        virt = phys + virt % hugePageSize ↔ flags &&& ptNx = 0) := by
  constructor
  · intro phys hp hal hnh hok
    rw [vmmGetPhys_mapped h hf hroot hslot (pageEntry_lt phys hflags.lt) hnh hok,
      leafFrame_pageEntry hflags hpres hp hal, Option.elim_some]
    omega
  · intro phys hp hal hok
    rw [vmmGetPhys_mapped_huge h hf hroot hslot (hugeEntry_lt phys hflags.lt) hok rfl,
      leafRegion_hugeEntry hflags hpres hp hal, Region.translate]
    omega

end Recursive

/-- Three pages for the tables of an empty hierarchy. -/
def tablePages : Mm :=
  ⟨fun _ _ => 0, [0xFFFF800000101000, 0xFFFF800000102000, 0xFFFF800000103000]⟩

/-- A page that is writable and global, under a recursive entry. -/
theorem vmmGetPhys_global_page :
    vmmGetPhys (vmmMapPage (tablePages.put 0xFFFF800000100000 recursiveIndex
        (recursiveEntry 0xFFFF800000100000)) 0xFFFF800000100000 0x1234 0x5000 0x103).2.tables
      0xFFFF800000100000 0x1234 = 0x5000 + 0x1234 % pageSize := by
  have hzero : World.Inv 0xFFFF800000100000 ⟨fun _ _ => 0, fun _ => .empty⟩ :=
    World.Inv.zeroed (fun _ _ => Nat.two_pow_pos 64) fun _ => rfl
  have hflags : FlagWord 0x103 := ⟨[0x001, 0x002, 0x100], by decide, rfl⟩
  have hslot : pml4Index 0x1234 ≠ recursiveIndex := by decide
  have hspec := vmmGetPhys_eq_iff_no_ptNx (s := tablePages) (e := recursiveEntry 0xFFFF800000100000)
    hzero.wf (Fresh.zeroed (by decide) (by decide)) (by decide) hslot hflags (by decide)
  have hempty : absRegion tablePages.tables 0xFFFF800000100000 (regionOf 0x1234) = .empty :=
    hzero.regions _ (regionOf_lt 0x1234)
  have hnh : ∀ base, absRegion tablePages.tables 0xFFFF800000100000 (regionOf 0x1234) ≠ .huge base := by
    intro base hc
    rw [hempty] at hc
    cases hc
  exact (hspec.1 0x5000 (by decide) (by decide) hnh (by decide +kernel)).2 (by decide)

/-- **A page that must not be executed** is translated to an address with
bit 63 set. -/
theorem vmmGetPhys_nx_page :
    let s := tablePages.put 0xFFFF800000100000 recursiveIndex (recursiveEntry 0xFFFF800000100000)
    let r := vmmMapPage s 0xFFFF800000100000 0x1234 0x5000 (ptPresent ||| ptNx)
    FlagWord (ptPresent ||| ptNx) ∧ r.1 = true ∧
      vmmGetPhys r.2.tables 0xFFFF800000100000 0x1234 = 0x8000000000005234 ∧
      vmmGetPhys r.2.tables 0xFFFF800000100000 0x1234 ≠ 0x5000 + 0x1234 % pageSize :=
  ⟨⟨[ptPresent, ptNx], by decide, rfl⟩, by decide +kernel, by decide +kernel, by decide +kernel⟩

end Vmm

end Kos
