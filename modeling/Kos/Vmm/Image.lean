import Kos.Vmm.Init
import Kos.Vmm.Leaves
/-!
# Vmm — the loop over the kernel image

The linker puts the image at the start of the higher half, and the boot
loader puts it at 1 MB. `kernel_size` takes 1 MB away from the offset of
`_kernel_end` in the higher half, as if the image were linked at its
load address. The loop therefore stops 1 MB before the end of an image
that has as much, and for a smaller one the size wraps.
-/

namespace Kos

namespace Vmm

open Radix

variable {tables : Tables ℕ} {s s' : Mm} {root size a : ℕ} {answers : List ℕ}

/-- The values `off` takes in the loop, in 64 bits. They are missing while
the loop goes on. -/
def kernelOffsets (size : ℕ) : ℕ → ℕ → Option (List ℕ)
  | 0, _ => none
  | fuel + 1, off =>
    if off < size then (kernelOffsets size fuel (add64 off pageSize)).map (off :: ·) else some []

/-- **The loop over the image performs `n` mappings.** -/
def LoopMaps (size n : ℕ) : Prop := ∃ fuel offs, kernelOffsets size fuel 0 = some offs ∧ offs.length = n

/-- **A loop that ends goes over the pages of its size**, and that is below
the last page. -/
theorem kernelOffsets_length : ∀ {fuel off : ℕ} {offs : List ℕ},
    kernelOffsets size fuel off = some offs → off % 4096 = 0 → off < 2 ^ 64 →
    size ≤ 2 ^ 64 - 4096 ∧ offs.length = (size - off + 4095) / 4096 := by
  intro fuel
  induction fuel with
  | zero =>
    intro off offs h
    cases h
  | succ fuel ih =>
    intro off offs h hoff hlt
    rw [kernelOffsets] at h
    by_cases hin : off < size
    · rw [if_pos hin] at h
      obtain ⟨rest, hrest, rfl⟩ := Option.map_eq_some_iff.1 h
      obtain ⟨hsize, hlen⟩ := ih hrest (by simp only [add64, pageSize]; omega) (add64_lt _ _)
      -- the offset does not wrap, since the size is below the last page
      rw [add64_of_lt (by simp only [pageSize]; omega)] at hlen
      simp only [pageSize] at hlen
      rw [List.length_cons, hlen]
      omega
    · rw [if_neg hin] at h
      cases h
      rw [List.length_nil]
      omega

/-- **The loop never performs as many mappings as the image has pages.** -/
theorem not_loopMaps (size : ℕ) :
    ¬ LoopMaps (kernelSize (kernelTextStart + size)) ((size + 4095) / 4096) := by
  rintro ⟨fuel, offs, hoffs, hlen⟩
  obtain ⟨hsize, hcount⟩ := kernelOffsets_length hoffs (by decide) (by decide)
  rw [hlen] at hcount
  simp only [kernelSize, virtToPhys, sub64, kernelTextStart, kernelHigherHalf] at hsize hcount
  omega

/-! ## What is left out -/

/-- **An address no mapping has come to yet.** -/
structure Untouched (root a : ℕ) (answers : List ℕ) (s : Mm) : Prop where
  loading : Loading root answers s
  unmapped : vmmGetPhys s.tables root a = 0

/-- A huge page for another region. -/
theorem Untouched.mapHugePage (h : Untouched root a answers s) {k : ℕ} (hk : k < 512)
    (ha : regionOf a ≠ k) :
    Untouched root a answers (vmmMapHugePage s root (k * hugePageSize) (k * hugePageSize)
      (ptPresent ||| ptWritable ||| ptHuge)).2 := by
  have hregion : regionOf (k * hugePageSize) = k := by
    simp only [regionOf, hugePageSize]
    omega
  refine ⟨h.loading.mapHugePage hk, ?_⟩
  rw [vmmMapHugePage_translate h.loading.wf h.loading.fresh (hugeEntry_lt _ (by decide)),
    if_neg fun hc => ha (hc.2.trans hregion)]
  exact h.unmapped

/-- A mapping of another page above the first gigabyte. -/
theorem Untouched.mapPage (h : Untouched root a answers s) (virt phys : ℕ)
    (hloading : Loading root answers
      (vmmMapPage s root virt phys (ptPresent ||| ptWritable ||| ptGlobal)).2)
    (hregion : 512 ≤ regionOf virt) (ha : pageOf a ≠ pageOf virt) :
    Untouched root a answers
      (vmmMapPage s root virt phys (ptPresent ||| ptWritable ||| ptGlobal)).2 := by
  have hnh : ∀ base, absRegion s.tables root (regionOf virt) ≠ .huge base := by
    intro base hbase
    have := (h.loading.huge _ (regionOf_lt virt) base hbase).1
    omega
  refine ⟨hloading, ?_⟩
  rw [vmmMapPage_translate h.loading.wf h.loading.fresh (pageEntry_lt _ (by decide)) hnh,
    if_neg fun hc => ha hc.2]
  exact h.unmapped

/-- **An address of the image past what `kernel_size` covers.** -/
structure LeftOut (size off : ℕ) : Prop where
  past : (kernelSize (kernelTextStart + size) + pageSize - 1) / pageSize * pageSize ≤ off
  inside : off < size

section Tail

variable {off : ℕ} (hlow : 0x100000 ≤ size) (hfit : size ≤ 2 ^ 46) (hoff : LeftOut size off)
include hfit hoff

theorem regionOf_image : 512 ≤ regionOf (kernelTextStart + off) := by
  have := hoff.inside
  simp only [regionOf, hugePageSize, kernelTextStart]
  omega

include hlow

omit hoff in
theorem kernelSize_eq : kernelSize (kernelTextStart + size) = size - 0x100000 := by
  simp only [kernelSize, virtToPhys, sub64, kernelTextStart, kernelHigherHalf]
  omega

theorem Untouched.mapKernel (h : Untouched root (kernelTextStart + off) answers s) :
    Untouched root (kernelTextStart + off) answers
      (mapKernel s root (kernelSize (kernelTextStart + size))) := by
  have hpast := hoff.past
  have hin := hoff.inside
  rw [kernelSize_eq hlow hfit] at hpast ⊢
  -- each page of the loop is below what `kernel_size` covers, so not that of the address
  refine List.foldlRecOn _ _ h fun s hs k hk => ?_
  have hk := List.mem_range.1 hk
  simp only [pageSize] at hk hpast
  have hpage : k * pageSize < 2 ^ 47 := by
    simp only [pageSize]
    omega
  have hvirt := kernelPage_eq hpage
  refine hs.mapPage _ _ (hs.loading.mapKernelPage hpage) ?_ ?_
  · rw [hvirt]
    simp only [regionOf, hugePageSize, kernelTextStart, pageSize]
    omega
  · rw [hvirt]
    simp only [pageOf, kernelTextStart, pageSize]
    omega

/-- **The end of the image is not mapped** after `vmm_init`. -/
theorem tail_unmapped (hword : ∀ t i, s.tables t i < 2 ^ 64) (hans : Answers s.pmm)
    (hinit : vmmInit s (kernelTextStart + size) = some (root, s')) :
    vmmGetPhys s'.tables root (kernelTextStart + off) = 0 := by
  obtain ⟨tables, pmm⟩ := s
  have hin := hoff.inside
  have hregion := regionOf_image hfit hoff
  cases pmm with
  | nil => cases hinit
  | cons page rest =>
    rw [vmmInit_cons, kernelSize_eq hlow hfit] at hinit
    by_cases hpage : page = 0
    · rw [if_pos hpage] at hinit
      cases hinit
    rw [if_neg hpage, if_neg (by simp only [pageSize]; omega)] at hinit
    obtain ⟨rfl, rfl⟩ := Prod.mk.inj (Option.some.inj hinit)
    have hload := Loading.start hword hans hpage
    have hstart : Untouched page (kernelTextStart + off) (page :: rest)
        ⟨Function.update tables page fun _ => 0, rest⟩ := by
      refine ⟨hload, ?_⟩
      simp only [vmmGetPhys, Function.update_self]
      rfl
    -- the huge pages are for the first gigabyte
    have hidentity : Untouched page (kernelTextStart + off) (page :: rest)
        (mapIdentity ⟨Function.update tables page fun _ => 0, rest⟩ page) := by
      refine List.foldlRecOn _ _ hstart fun s hs k hk => ?_
      have hk : k < 512 := List.mem_range.1 hk
      exact hs.mapHugePage hk (by omega)
    have hkernel := hidentity.mapKernel hlow hfit hoff
    rw [kernelSize_eq hlow hfit] at hkernel
    have hscreen := hkernel.mapPage 0xFFFFFFFF800B8000 0xB8000
      (hkernel.loading.mapPage (by decide) (by decide) (by decide) (by decide) (by decide))
      (by decide) (by simp only [pageOf, kernelTextStart, pageSize]; omega)
    have hslot : pml4Index (kernelTextStart + off) ≠ recursiveIndex := by
      rw [pml4Index_eq]
      simp only [regionOf, hugePageSize, kernelTextStart, recursiveIndex]
      omega
    rw [put_tables, vmmGetPhys_set hscreen.loading.wf hslot]
    exact hscreen.unmapped

end Tail

/-! ## The image -/

/-- **The image is mapped as it is loaded**: the loop goes over its pages
once, and each address of it is translated to where the boot loader put
it. -/
def ImageMapped (s : Mm) (size : ℕ) : Prop :=
  LoopMaps (kernelSize (kernelTextStart + size)) ((size + pageSize - 1) / pageSize) ∧
    ∃ root s', vmmInit s (kernelTextStart + size) = some (root, s') ∧
      ∀ off < size, vmmGetPhys s'.tables root (kernelTextStart + off) = 0x100000 + off

/-- **No image is mapped as it is loaded**, whatever its size and whatever
pages there are. One of 1 MB or more loses its end: the addresses past
what `kernel_size` covers are translated to nothing. -/
theorem image_not_mapped (s : Mm) (size : ℕ) :
    ¬ ImageMapped s size ∧
      ((∀ t i, s.tables t i < 2 ^ 64) → Answers s.pmm → 0x100000 ≤ size → size ≤ 2 ^ 46 →
        ∀ root s', vmmInit s (kernelTextStart + size) = some (root, s') →
          ∀ off, LeftOut size off → vmmGetPhys s'.tables root (kernelTextStart + off) = 0) := by
  refine ⟨fun hmapped => not_loopMaps size hmapped.1, ?_⟩
  intro hword hans hlow hfit root s' hinit off hoff
  exact tail_unmapped hlow hfit hoff hword hans hinit

/-- **An image of 257 pages**: the loop performs one mapping, and the
second page is translated to nothing. -/
theorem image_of_257_pages :
    ∃ s', vmmInit ⟨fun _ _ => 0, eightPages⟩ (kernelTextStart + 0x101000) =
        some (physToVirt 0x200000, s') ∧
      LoopMaps (kernelSize (kernelTextStart + 0x101000)) 1 ∧
      vmmGetPhys s'.tables (physToVirt 0x200000) (kernelTextStart + 0x1000) = 0 ∧
      ¬ ImageMapped ⟨fun _ _ => 0, eightPages⟩ 0x101000 := by
  obtain ⟨s', hinit⟩ := vmmInit_eightPages
  refine ⟨s', hinit, ⟨2, [0], by decide, rfl⟩, ?_, fun hmapped => not_loopMaps 0x101000 hmapped.1⟩
  have hleft : LeftOut 0x101000 0x1000 := ⟨by decide, by decide⟩
  exact tail_unmapped (by decide) (by decide) hleft (fun _ _ => Nat.two_pow_pos 64)
    eightPages_answers hinit

end Vmm

end Kos
