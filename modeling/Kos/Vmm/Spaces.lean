import Kos.Common.Run
import Kos.Vmm.Init
/-!
# Vmm — the kernel half of every address space

`vmm_create_address_space` shares the kernel half by copying the entries
of the kernel's PML4 that are present when it is called. The tables
below these entries are one and the same for all address spaces, so a
page mapped there later is seen everywhere. A slot that was empty is a
copy of nothing: the entry that a later mapping puts into the kernel's
PML4 reaches no other.

A PML4 shows itself to itself in one slot. `cut` is the hierarchy
without that entry, which is a tree.
-/

namespace Kos

namespace Vmm

open Radix

/-- Addresses of the kernel half, outside the slot of the PML4 itself. -/
def KernelHalf (virt : ℕ) : Prop := 256 ≤ pml4Index virt ∧ pml4Index virt ≠ recursiveIndex

instance (virt : ℕ) : Decidable (KernelHalf virt) := inferInstanceAs (Decidable (_ ∧ _))

/-- The tables in memory, and the address spaces created so far. -/
structure Shared where
  tables : Tables ℕ
  spaces : List ℕ

/-- The calls of a run, with the answers of the page allocator. -/
inductive SpaceOp
  | mapPage (virt phys flags : ℕ) (pmm : List ℕ)
  | unmapPage (virt : ℕ)
  | create (pmm : List ℕ)
  deriving DecidableEq, Repr

/-- One call, on the kernel's PML4; an address space that could not be
created is `0`. -/
def Shared.step (kernelPml4 : ℕ) (w : Shared) : SpaceOp → Shared
  | .mapPage virt phys flags pmm =>
    { w with tables := (vmmMapPage ⟨w.tables, pmm⟩ kernelPml4 virt phys flags).2.tables }
  | .unmapPage virt => { w with tables := (vmmUnmapPage ⟨w.tables, []⟩ kernelPml4 virt).tables }
  | .create pmm =>
    let (space, s) := vmmCreateAddressSpace ⟨w.tables, pmm⟩ kernelPml4
    ⟨s.tables, if space = 0 then w.spaces else physToVirt space :: w.spaces⟩

/-- **Every address space translates the kernel half as the kernel does.** -/
def Shared.Agree (kernelPml4 : ℕ) (w : Shared) : Prop :=
  ∀ space ∈ w.spaces, ∀ virt, KernelHalf virt →
    vmmGetPhys w.tables space virt = vmmGetPhys w.tables kernelPml4 virt

/-- The hierarchy without the entry that shows the PML4 to itself. -/
def cut (tables : Tables ℕ) (pml4 : ℕ) : Tables ℕ := set tables pml4 recursiveIndex 0

/-- **What the page allocator must answer**: pages that are neither tables
of the kernel nor the PML4 of an address space. -/
structure Unused (kernelPml4 : ℕ) (w : Shared) (pmm : List ℕ) : Prop where
  fresh : Fresh ⟨cut w.tables kernelPml4, pmm⟩ kernelPml4
  spaces : ∀ a ∈ pmm, a ∉ w.spaces

/-- The calls of a run: kernel-half addresses, and words of 64 bits. -/
def SpaceOp.Valid (kernelPml4 : ℕ) (w : Shared) : SpaceOp → Prop
  | .mapPage virt phys flags pmm =>
    KernelHalf virt ∧ phys < 2 ^ 64 ∧ flags < 2 ^ 64 ∧ Unused kernelPml4 w pmm
  | .unmapPage virt => KernelHalf virt
  | .create pmm => Unused kernelPml4 w pmm

/-- **A mapping that an address space does not get to see**: the entry is
present, there are pages for the tables, and the slot is empty in an
address space. -/
def SpaceOp.Hides (kernelPml4 : ℕ) (w : Shared) : SpaceOp → Prop
  | .mapPage virt phys flags pmm =>
    isPresent (phys &&& pageMask ||| flags) = true ∧
      enough (missingTables w.tables kernelPml4 virt) pmm = true ∧
      ∃ space ∈ w.spaces, isPresent (w.tables space (pml4Index virt)) = false
  | .unmapPage _ => False
  | .create _ => False

/-- **The invariant of a run**: the kernel's tables are a tree without huge
pages in the kernel half, and each slot of an address space is the
kernel's or empty. -/
structure Shared.Inv (kernelPml4 : ℕ) (w : Shared) : Prop where
  wf : Wf (cut w.tables kernelPml4) kernelPml4
  ne_zero : kernelPml4 ≠ 0
  small : ∀ virt, KernelHalf virt → ∀ base,
    absRegion (cut w.tables kernelPml4) kernelPml4 (regionOf virt) ≠ .huge base
  off : ∀ space ∈ w.spaces, ¬ Under link (cut w.tables kernelPml4) kernelPml4 3 space
  entries : ∀ space ∈ w.spaces, ∀ virt, KernelHalf virt →
    w.tables space (pml4Index virt) = w.tables kernelPml4 (pml4Index virt) ∨
      isPresent (w.tables space (pml4Index virt)) = false

variable {tables : Tables ℕ} {w : Shared} {kernelPml4 : ℕ} {virt phys flags : ℕ} {pmm : List ℕ}
  {s s' : Mm}

/-! ## Reading the kernel half -/

theorem cut_of_ne {t i : ℕ} (h : ¬ (t = kernelPml4 ∧ i = recursiveIndex)) :
    cut tables kernelPml4 t i = tables t i := set_of_ne h

/-- The entry put back. -/
theorem set_cut (tables : Tables ℕ) (pml4 : ℕ) :
    set (cut tables pml4) pml4 recursiveIndex (tables pml4 recursiveIndex) = tables := by
  rw [cut, set_set]
  exact set_eq_self rfl

/-- The kernel half is read off the tree. -/
theorem Shared.Inv.vmmGetPhys_cut (h : w.Inv kernelPml4) (hv : KernelHalf virt) :
    vmmGetPhys w.tables kernelPml4 virt = vmmGetPhys (cut w.tables kernelPml4) kernelPml4 virt := by
  conv_lhs => rw [← set_cut w.tables kernelPml4]
  exact vmmGetPhys_set h.wf hv.2

/-- An empty slot translates nothing. -/
theorem vmmGetPhys_of_not_present {pml4 : ℕ}
    (h : isPresent (tables pml4 (pml4Index virt)) = false) : vmmGetPhys tables pml4 virt = 0 := by
  rw [vmmGetPhys, h, Bool.not_false, if_pos rfl]

/-- Equal entries translate alike. -/
theorem vmmGetPhys_congr {pml4 pml4' : ℕ}
    (h : tables pml4 (pml4Index virt) = tables pml4' (pml4Index virt)) :
    vmmGetPhys tables pml4 virt = vmmGetPhys tables pml4' virt := by
  rw [vmmGetPhys, vmmGetPhys, h]

/-- **Address spaces agree exactly if the kernel has nothing mapped in a
slot that is empty in one of them.** -/
theorem Shared.Inv.agree_iff (h : w.Inv kernelPml4) :
    w.Agree kernelPml4 ↔ ∀ space ∈ w.spaces, ∀ virt, KernelHalf virt →
      isPresent (w.tables space (pml4Index virt)) = false →
      vmmGetPhys (cut w.tables kernelPml4) kernelPml4 virt = 0 := by
  constructor
  · intro hagree space hspace virt hv hempty
    rw [← h.vmmGetPhys_cut hv, ← hagree space hspace virt hv]
    exact vmmGetPhys_of_not_present hempty
  · intro hzero space hspace virt hv
    rcases h.entries space hspace virt hv with heq | hempty
    · exact vmmGetPhys_congr heq
    · rw [vmmGetPhys_of_not_present hempty, h.vmmGetPhys_cut hv, hzero space hspace virt hv hempty]

/-! ## Mapping and unmapping -/

/-- The kernel's PML4 is not the PML4 of an address space. -/
theorem Shared.Inv.ne_kernel (h : w.Inv kernelPml4) {space : ℕ} (hs : space ∈ w.spaces) :
    space ≠ kernelPml4 :=
  (ne_of_not_under (h.off space hs) (under_root _ _)).symm

/-- Nor is it answered by the allocator. -/
theorem Shared.Inv.kernel_notMem (h : w.Inv kernelPml4)
    (hf : Fresh ⟨cut w.tables kernelPml4, pmm⟩ kernelPml4) : kernelPml4 ∉ pmm := by
  intro hc
  exact hf.unused kernelPml4 hc h.ne_zero (under_root _ _)

/-- **A call on the kernel's tables**, followed on the tree. -/
theorem Shared.Inv.of_stays {slot : ℕ} (h : w.Inv kernelPml4)
    (hs : Stays kernelPml4 slot ⟨cut w.tables kernelPml4, pmm⟩ s') (hslot : recursiveIndex ≠ slot)
    (hwf : Wf s'.tables kernelPml4)
    (hsmall : ∀ virt, KernelHalf virt → ∀ base,
      absRegion s'.tables kernelPml4 (regionOf virt) ≠ .huge base)
    (hpmm : ∀ a ∈ pmm, a ∉ w.spaces) :
    let w' : Shared :=
      ⟨set s'.tables kernelPml4 recursiveIndex (w.tables kernelPml4 recursiveIndex), w.spaces⟩
    w'.Inv kernelPml4 ∧ cut w'.tables kernelPml4 = s'.tables ∧
      ∀ space ∈ w.spaces, w'.tables space = w.tables space := by
  intro w'
  have hcut : cut w'.tables kernelPml4 = s'.tables := by
    rw [cut, set_set]
    refine set_eq_self ?_
    rw [hs.entry recursiveIndex (Or.inl hslot)]
    exact set_self _ _ _ _
  have hrow : ∀ space ∈ w.spaces, w'.tables space = w.tables space := by
    intro space hspace
    have hne := h.ne_kernel hspace
    have hout := hs.outside space (h.off space hspace) fun hc => hpmm space hc hspace
    exact (set_row_of_ne hne).trans (hout.trans (set_row_of_ne hne))
  refine ⟨⟨hcut ▸ hwf, h.ne_zero, ?_, ?_, ?_⟩, hcut, hrow⟩
  · intro virt hv base
    rw [hcut]
    exact hsmall virt hv base
  · intro space hspace hu
    rw [hcut] at hu
    rcases hs.under space hu with hu | hu
    · exact h.off space hspace hu
    · exact hpmm space hu hspace
  · intro space hspace virt hv
    have hindex : ¬ (kernelPml4 = kernelPml4 ∧ pml4Index virt = recursiveIndex) := fun hc => hv.2 hc.2
    have hentry : w'.tables kernelPml4 (pml4Index virt) = s'.tables kernelPml4 (pml4Index virt) :=
      set_of_ne hindex
    rw [hrow space hspace, hentry]
    rcases h.entries space hspace virt hv with heq | hempty
    · cases hpres : isPresent (w.tables kernelPml4 (pml4Index virt)) with
      | false =>
        -- what the call may have filled in, the address space does not have
        right
        rw [heq, hpres]
      | true =>
        left
        have hbefore : cut w.tables kernelPml4 kernelPml4 (pml4Index virt) =
            w.tables kernelPml4 (pml4Index virt) := cut_of_ne hindex
        have hkeep := hs.entry (pml4Index virt) (Or.inr ((congrArg isPresent hbefore).trans hpres))
        rw [heq]
        exact (hkeep.trans hbefore).symm
    · exact Or.inr hempty

section MapPage

variable (h : w.Inv kernelPml4) (hop : (SpaceOp.mapPage virt phys flags pmm).Valid kernelPml4 w)
include h hop

/-- **`vmm_map_page` on the kernel's tables is `vmm_map_page` on the tree.** -/
theorem Shared.Inv.mapPage :
    let s' := (vmmMapPage ⟨cut w.tables kernelPml4, pmm⟩ kernelPml4 virt phys flags).2
    let w' := w.step kernelPml4 (.mapPage virt phys flags pmm)
    w'.Inv kernelPml4 ∧ cut w'.tables kernelPml4 = s'.tables ∧
      ∀ space ∈ w.spaces, w'.tables space = w.tables space := by
  intro s' w'
  obtain ⟨hv, hphys, hflags, hfresh, hspaces⟩ := hop
  have hnh := h.small virt hv
  obtain ⟨hwf, hregions⟩ := vmmMapPage_regions (s := ⟨cut w.tables kernelPml4, pmm⟩) h.wf hfresh
    (pageEntry_lt phys hflags) hnh
  have hstays : Stays kernelPml4 (pml4Index virt) ⟨cut w.tables kernelPml4, pmm⟩ s' :=
    vmmMapPage_stays h.wf hfresh hnh
  have hstep : w' =
      ⟨set s'.tables kernelPml4 recursiveIndex (w.tables kernelPml4 recursiveIndex), w.spaces⟩ := by
    have hput : (⟨w.tables, pmm⟩ : Mm) = (⟨cut w.tables kernelPml4, pmm⟩ : Mm).put kernelPml4
        recursiveIndex (w.tables kernelPml4 recursiveIndex) := by
      rw [Mm.put, set_cut]
    simp only [w', Shared.step]
    rw [hput, vmmMapPage_put h.wf hfresh (h.kernel_notMem hfresh) hnh hv.2]
    rfl
  rw [hstep]
  refine h.of_stays hstays hv.2.symm hwf ?_ hspaces
  intro a ha base
  rw [hregions _ (regionOf_lt a)]
  split
  · exact Region.noConfusion
  · exact h.small a ha base

/-- What the kernel half is translated to afterwards. -/
theorem Shared.Inv.mapPage_translate (a : ℕ) :
    vmmGetPhys (cut (w.step kernelPml4 (.mapPage virt phys flags pmm)).tables kernelPml4)
        kernelPml4 a =
      if enough (missingTables w.tables kernelPml4 virt) pmm = true ∧ pageOf a = pageOf virt then
        (leafFrame (phys &&& pageMask ||| flags)).elim 0 (· + a % pageSize)
      else vmmGetPhys (cut w.tables kernelPml4) kernelPml4 a := by
  obtain ⟨-, hcut, -⟩ := h.mapPage hop
  obtain ⟨hv, -, hflags, hfresh, -⟩ := hop
  have hnh := h.small virt hv
  have hmissing : missingTables w.tables kernelPml4 virt =
      missingTables (cut w.tables kernelPml4) kernelPml4 virt := by
    conv_lhs => rw [← set_cut w.tables kernelPml4]
    exact missingTables_set h.wf hv.2
  have hok : (vmmMapPage ⟨cut w.tables kernelPml4, pmm⟩ kernelPml4 virt phys flags).1 =
      enough (missingTables w.tables kernelPml4 virt) pmm := by
    rw [hmissing, Bool.eq_iff_iff]
    exact vmmMapPage_ok_iff h.wf hfresh hnh
  rw [hcut, ← hok]
  exact vmmMapPage_translate h.wf hfresh (pageEntry_lt phys hflags) hnh a

/-- **A mapping keeps address spaces in agreement exactly if it hides from
none.** -/
theorem Shared.Inv.agree_mapPage (hagree : w.Agree kernelPml4) :
    (w.step kernelPml4 (.mapPage virt phys flags pmm)).Agree kernelPml4 ↔
      ¬ (SpaceOp.mapPage virt phys flags pmm).Hides kernelPml4 w := by
  obtain ⟨hinv, -, hrow⟩ := h.mapPage hop
  have htranslate := h.mapPage_translate hop
  rw [h.agree_iff] at hagree
  rw [hinv.agree_iff]
  constructor
  · rintro hzero ⟨hleaf, hpages, space, hspace, hempty⟩
    -- the second byte of the page: the kernel's translation of it is not `0`
    let a := roundTo pageSize virt + 1
    have hpage : pageOf a = pageOf virt := by
      simp only [a, pageOf, roundTo, pageSize]
      omega
    have hindex : pml4Index a = pml4Index virt := by
      rw [pml4Index_eq, pml4Index_eq, (pageOf_eq_iff.1 hpage).1]
    have ha : KernelHalf a := by
      rw [KernelHalf, hindex]
      exact hop.1
    have hphys := hzero space hspace a ha (by rw [hrow space hspace, hindex]; exact hempty)
    rw [htranslate a, if_pos ⟨hpages, hpage⟩, leafFrame, if_pos hleaf] at hphys
    simp only [Option.elim_some, a, roundTo, pageSize] at hphys
    omega
  · intro hnot space hspace a ha hempty
    rw [hrow space hspace] at hempty
    rw [htranslate a]
    split
    · rename_i hpage
      have hindex : pml4Index a = pml4Index virt := by
        rw [pml4Index_eq, pml4Index_eq, (pageOf_eq_iff.1 hpage.2).1]
      rw [hindex] at hempty
      have hleaf : ¬ isPresent (phys &&& pageMask ||| flags) = true := fun hc =>
        hnot ⟨hc, hpage.1, space, hspace, hempty⟩
      rw [leafFrame, if_neg hleaf]
      rfl
    · exact hagree space hspace a ha hempty

end MapPage

/-- **`vmm_unmap_page` on the kernel's tables is `vmm_unmap_page` on the
tree.** -/
theorem Shared.Inv.unmapPage (h : w.Inv kernelPml4) (hv : KernelHalf virt) :
    let s' := vmmUnmapPage ⟨cut w.tables kernelPml4, []⟩ kernelPml4 virt
    let w' := w.step kernelPml4 (.unmapPage virt)
    w'.Inv kernelPml4 ∧ cut w'.tables kernelPml4 = s'.tables ∧
      ∀ space ∈ w.spaces, w'.tables space = w.tables space := by
  intro s' w'
  obtain ⟨hwf, hregions⟩ := vmmUnmapPage_refines (s := ⟨cut w.tables kernelPml4, []⟩) h.wf virt
  have hstays : Stays kernelPml4 (pml4Index virt) ⟨cut w.tables kernelPml4, []⟩ s' :=
    vmmUnmapPage_stays h.wf virt
  have hstep : w' =
      ⟨set s'.tables kernelPml4 recursiveIndex (w.tables kernelPml4 recursiveIndex), w.spaces⟩ := by
    have hput : (⟨w.tables, []⟩ : Mm) = (⟨cut w.tables kernelPml4, []⟩ : Mm).put kernelPml4
        recursiveIndex (w.tables kernelPml4 recursiveIndex) := by
      rw [Mm.put, set_cut]
    simp only [w', Shared.step]
    rw [hput, vmmUnmapPage_put h.wf hv.2]
    rfl
  rw [hstep]
  refine h.of_stays hstays hv.2.symm hwf ?_ fun a ha => absurd ha List.not_mem_nil
  intro a ha base hhuge
  rw [hregions _ (regionOf_lt a)] at hhuge
  simp only [Space.step, Bool.not_true, Bool.false_eq_true, if_false, Function.update_apply] at hhuge
  split at hhuge
  · -- what is left of a region after an unmapping is no huge page
    cases hregion : absRegion (cut w.tables kernelPml4) kernelPml4 (regionOf virt) with
    | empty => rw [hregion] at hhuge; cases hhuge
    | huge base => rw [hregion] at hhuge; cases hhuge
    | table frames => rw [hregion] at hhuge; cases hhuge
  · exact h.small a ha base hhuge

theorem Shared.Inv.agree_unmapPage (h : w.Inv kernelPml4) (hv : KernelHalf virt)
    (hagree : w.Agree kernelPml4) : (w.step kernelPml4 (.unmapPage virt)).Agree kernelPml4 := by
  obtain ⟨hinv, hcut, hrow⟩ := h.unmapPage hv
  rw [h.agree_iff] at hagree
  rw [hinv.agree_iff]
  intro space hspace a ha hempty
  rw [hrow space hspace] at hempty
  rw [hcut]
  rcases vmmUnmapPage_translate (s := ⟨cut w.tables kernelPml4, []⟩) h.wf virt a with hz | heq
  · exact hz
  · rw [heq]
    exact hagree space hspace a ha hempty

/-! ## Creating an address space -/

/-- The PML4 of a new address space. -/
def spaceRow (tables : Tables ℕ) (kernelPml4 pml4 : ℕ) : ℕ → ℕ :=
  Function.update
    (fun i => if i ∈ List.range' 256 256 ∧ isPresent (tables kernelPml4 i) = true then
      tables kernelPml4 i else 0)
    recursiveIndex (recursiveEntry pml4)

/-- Writing an entry of a table that was replaced. -/
theorem set_update (tables : Tables ℕ) (t i e : ℕ) (row : ℕ → ℕ) :
    set (Function.update tables t row) t i e =
      Function.update tables t (Function.update row i e) := by
  rw [Radix.set, Function.update_self, Function.update_idem]

/-- **The loop copies the present entries.** -/
theorem copy_foldl {pml4 : ℕ} (hne : pml4 ≠ kernelPml4) (l : List ℕ) (row : ℕ → ℕ) :
    l.foldl
      (fun (s : Mm) i =>
        if isPresent (s.tables kernelPml4 i) then s.put pml4 i (s.tables kernelPml4 i) else s)
      ⟨Function.update tables pml4 row, pmm⟩ =
    ⟨Function.update tables pml4 fun i =>
      if i ∈ l ∧ isPresent (tables kernelPml4 i) = true then tables kernelPml4 i else row i, pmm⟩ := by
  induction l generalizing row with
  | nil => simp
  | cons j l ih =>
    rw [List.foldl_cons]
    simp only [Function.update_of_ne hne.symm]
    split
    · rename_i hpres
      rw [Mm.put, set_update, ih]
      congr 2
      funext i
      by_cases hij : i = j
      · subst hij
        simp [hpres]
      · simp [hij]
    · rename_i hpres
      rw [ih]
      congr 2
      funext i
      by_cases hij : i = j
      · subst hij
        simp [hpres]
      · simp [hij]

/-- **`vmm_create_address_space`** fills one page that was in no use. -/
theorem vmmCreateAddressSpace_cons {page : ℕ} {rest : List ℕ} (hpage : page ≠ 0)
    (hne : page ≠ kernelPml4) :
    vmmCreateAddressSpace ⟨tables, page :: rest⟩ kernelPml4 =
      (virtToPhys page, ⟨Function.update tables page (spaceRow tables kernelPml4 page), rest⟩) := by
  have hcopy : copyKernelEntries ⟨Function.update tables page fun _ => 0, rest⟩ kernelPml4 page =
      ⟨Function.update tables page fun i =>
        if i ∈ List.range' 256 256 ∧ isPresent (tables kernelPml4 i) = true then
          tables kernelPml4 i else 0, rest⟩ := copy_foldl hne _ _
  have hcreate : vmmCreateAddressSpace ⟨tables, page :: rest⟩ kernelPml4 =
      if page = 0 then (0, ⟨tables, rest⟩)
      else (virtToPhys page,
        (copyKernelEntries ⟨Function.update tables page fun _ => 0, rest⟩ kernelPml4 page).put page
          recursiveIndex (recursiveEntry page)) := rfl
  rw [hcreate, if_neg hpage, hcopy, Mm.put, set_update]
  rfl

/-- A slot of the kernel half is copied if it is present. -/
theorem spaceRow_kernelHalf {pml4 : ℕ} (hv : KernelHalf virt) :
    spaceRow tables kernelPml4 pml4 (pml4Index virt) =
      if isPresent (tables kernelPml4 (pml4Index virt)) = true then
        tables kernelPml4 (pml4Index virt) else 0 := by
  have hlt : pml4Index virt < 512 := by
    rw [pml4Index_eq]
    exact Nat.mod_lt _ (by decide)
  have hmem : pml4Index virt ∈ List.range' 256 256 := List.mem_range'_1.2 ⟨hv.1, hlt⟩
  rw [spaceRow, Function.update_of_ne hv.2]
  simp only [hmem, true_and]

/-- What the page is filled with are words. -/
theorem spaceRow_lt {pml4 : ℕ} (h : w.Inv kernelPml4) (hpage : PageAddr pml4) (i : ℕ) :
    spaceRow w.tables kernelPml4 pml4 i < 2 ^ 64 := by
  by_cases hi : i = recursiveIndex
  · subst hi
    rw [spaceRow, Function.update_self, recursiveEntry_eq]
    exact (link_linkEntry hpage).2.1
  · rw [spaceRow, Function.update_of_ne hi]
    split
    · have hword := h.wf.word kernelPml4 i
      rwa [cut_of_ne fun hc => hi hc.2] at hword
    · exact Nat.two_pow_pos 64

/-- The calls that create nothing, and the others. -/
theorem Shared.step_create (w : Shared) (kernelPml4 : ℕ) (pmm : List ℕ) :
    w.step kernelPml4 (.create pmm) = w ∨
      ∃ page rest, pmm = page :: rest ∧ page ≠ 0 := by
  cases pmm with
  | nil => exact Or.inl rfl
  | cons page rest =>
    rcases Nat.eq_zero_or_pos page with rfl | hpos
    · exact Or.inl rfl
    · exact Or.inr ⟨page, rest, rfl, hpos.ne'⟩

section Create

variable {page : ℕ} {rest : List ℕ} (h : w.Inv kernelPml4)
  (hu : Unused kernelPml4 w (page :: rest)) (hpage : page ≠ 0)
include hu hpage

theorem Unused.page_ne : page ≠ kernelPml4 :=
  (ne_of_not_under (hu.fresh.unused page List.mem_cons_self hpage) (under_root _ _)).symm

/-- What a call that has a page makes. -/
theorem Unused.step_create_page :
    w.step kernelPml4 (.create (page :: rest)) =
      ⟨Function.update w.tables page (spaceRow w.tables kernelPml4 page),
        if virtToPhys page = 0 then w.spaces else page :: w.spaces⟩ := by
  have hne := hu.page_ne hpage
  have hlt := (hu.fresh.page page List.mem_cons_self hpage).lt
  have hback : physToVirt (virtToPhys page) = page := add64_sub64_cancel hlt
  simp only [Shared.step]
  rw [vmmCreateAddressSpace_cons hpage hne]
  simp only [hback]

include h in
/-- **A new address space keeps the invariant**, and agrees with the kernel
if the others do. -/
theorem Shared.Inv.create_page :
    (w.step kernelPml4 (.create (page :: rest))).Inv kernelPml4 ∧
      (w.Agree kernelPml4 → (w.step kernelPml4 (.create (page :: rest))).Agree kernelPml4) := by
  have hne := hu.page_ne hpage
  have hout := hu.fresh.unused page List.mem_cons_self hpage
  have haddr := hu.fresh.page page List.mem_cons_self hpage
  have hspace := hu.spaces page List.mem_cons_self
  rw [hu.step_create_page hpage]
  generalize hrow : spaceRow w.tables kernelPml4 page = row
  generalize hlist : (if virtToPhys page = 0 then w.spaces else page :: w.spaces) = spaces
  have hcut : cut (Function.update w.tables page row) kernelPml4 =
      Function.update (cut w.tables kernelPml4) page row := (update_set hne).symm
  have hwf : Wf (Function.update (cut w.tables kernelPml4) page row) kernelPml4 :=
    h.wf.update hout fun i => hrow ▸ spaceRow_lt h haddr i
  -- the new PML4 is the only table with other contents
  have hmem : ∀ space ∈ spaces, space = page ∨ space ∈ w.spaces ∧ space ≠ page := by
    intro space hs
    rw [← hlist] at hs
    split at hs
    · exact Or.inr ⟨hs, fun hc => hspace (hc ▸ hs)⟩
    · rcases List.mem_cons.1 hs with rfl | hs
      · exact Or.inl rfl
      · exact Or.inr ⟨hs, fun hc => hspace (hc ▸ hs)⟩
  have hentry : ∀ virt, KernelHalf virt → row (pml4Index virt) =
      if isPresent (w.tables kernelPml4 (pml4Index virt)) = true then
        w.tables kernelPml4 (pml4Index virt) else 0 := by
    intro virt hv
    rw [← hrow, spaceRow_kernelHalf hv]
  have hinv : Shared.Inv kernelPml4 ⟨Function.update w.tables page row, spaces⟩ := by
    refine ⟨?_, h.ne_zero, ?_, ?_, ?_⟩
    · rw [hcut]
      exact hwf
    · intro virt hv base
      rw [hcut, absRegion_update hout]
      exact h.small virt hv base
    · rintro space hs ⟨q, hq, hw⟩
      rw [hcut, walk_update_of_not_under hout (by omega)] at hw
      rcases hmem space hs with rfl | ⟨hs, -⟩
      · exact hout ⟨q, hq, hw⟩
      · exact h.off space hs ⟨q, hq, hw⟩
    · intro space hs virt hv
      simp only [Function.update_of_ne hne.symm]
      rcases hmem space hs with rfl | ⟨hs, hsne⟩
      · rw [Function.update_self, hentry virt hv]
        split
        · exact Or.inl rfl
        · exact Or.inr rfl
      · rw [Function.update_of_ne hsne]
        exact h.entries space hs virt hv
  refine ⟨hinv, fun hagree => ?_⟩
  rw [h.agree_iff] at hagree
  rw [hinv.agree_iff]
  intro space hs virt hv hempty
  rw [hcut, hwf.vmmGetPhys_eq, absRegion_update hout, ← h.wf.vmmGetPhys_eq]
  rcases hmem space hs with rfl | ⟨hs, hsne⟩
  · -- an entry that was not copied is not present in the kernel's PML4
    refine vmmGetPhys_of_not_present ?_
    rw [cut_of_ne fun hc => hv.2 hc.2]
    simp only [Function.update_self] at hempty
    rw [hentry virt hv] at hempty
    split at hempty
    · exact hempty
    · rename_i hnot
      exact Bool.eq_false_iff.2 hnot
  · simp only [Function.update_of_ne hsne] at hempty
    exact hagree space hs virt hv hempty

end Create

/-! ## Runs -/

/-- **One call keeps the invariant.** -/
theorem Shared.Inv.step {op : SpaceOp} (h : w.Inv kernelPml4) (hop : op.Valid kernelPml4 w) :
    (w.step kernelPml4 op).Inv kernelPml4 := by
  cases op with
  | mapPage virt phys flags pmm => exact (h.mapPage hop).1
  | unmapPage virt => exact (h.unmapPage hop).1
  | create pmm =>
    rcases w.step_create kernelPml4 pmm with hsame | ⟨page, rest, rfl, hpage⟩
    · rw [hsame]
      exact h
    · exact (h.create_page hop hpage).1

/-- **One call keeps the agreement exactly if it hides no mapping.** -/
theorem Shared.Inv.agree_step {op : SpaceOp} (h : w.Inv kernelPml4) (hop : op.Valid kernelPml4 w)
    (hagree : w.Agree kernelPml4) :
    (w.step kernelPml4 op).Agree kernelPml4 ↔ ¬ op.Hides kernelPml4 w := by
  cases op with
  | mapPage virt phys flags pmm => exact h.agree_mapPage hop hagree
  | unmapPage virt => exact ⟨fun _ hc => hc, fun _ => h.agree_unmapPage hop hagree⟩
  | create pmm =>
    refine ⟨fun _ hc => hc, fun _ => ?_⟩
    rcases w.step_create kernelPml4 pmm with hsame | ⟨page, rest, rfl, hpage⟩
    · rw [hsame]
      exact hagree
    · exact (h.create_page hop hpage).2 hagree

/-- **Where runs start**: the kernel's tables are a tree but for the slot of
the PML4, no huge page is in the kernel half, and no address space was
created. -/
structure Shared.Started (kernelPml4 : ℕ) (w : Shared) : Prop where
  wf : Wf (cut w.tables kernelPml4) kernelPml4
  ne_zero : kernelPml4 ≠ 0
  small : ∀ virt, KernelHalf virt → ∀ base,
    absRegion (cut w.tables kernelPml4) kernelPml4 (regionOf virt) ≠ .huge base
  none : w.spaces = []

theorem Shared.Started.inv (h : w.Started kernelPml4) : w.Inv kernelPml4 := by
  refine ⟨h.wf, h.ne_zero, h.small, ?_, ?_⟩
  · intro space hs
    rw [h.none] at hs
    cases hs
  · intro space hs
    rw [h.none] at hs
    cases hs

/-- **The kernel half of every address space.** At every moment of a run of
mappings, unmappings and creations, each address space translates the
kernel half as the kernel does, exactly if no call of the run maps a page
in a slot that was empty when an address space was created. -/
theorem spaces_agree_iff (hstart : w.Started kernelPml4) {ops : List SpaceOp}
    (hrun : Allowed (Shared.step kernelPml4) (fun w op => op.Valid kernelPml4 w) w ops) :
    (∀ n, (runFrom (Shared.step kernelPml4) w (ops.take n)).Agree kernelPml4) ↔
      Allowed (Shared.step kernelPml4) (fun w op => ¬ op.Hides kernelPml4 w) w ops := by
  have hagree : w.Agree kernelPml4 := by
    intro space hs
    rw [hstart.none] at hs
    cases hs
  exact (hrun.iff_forall_take (I := Shared.Inv kernelPml4) (fun _ _ h hop => h.step hop)
    (fun _ _ h hop => h.agree_step hop) hstart.inv hagree).symm

/-! ## After `vmm_init` -/

/-- Clearing an entry of the root leaves a tree. -/
theorem Wf.clear_root {root : ℕ} (h : Wf tables root) (i : ℕ) : Wf (set tables root i 0) root := by
  have hwalk : ∀ q u, q.length ≤ 3 → walk link (set tables root i 0) root q = some u →
      walk link tables root q = some u := by
    intro q u hq hu
    exact (h.tree.walk_cut (p := []) (Nat.zero_le 3) rfl link_zero hq hu).1
  refine ⟨h.word_set (p := []) rfl (Nat.two_pow_pos 64), h.tree.cut (p := []) (Nat.zero_le 3) rfl
    link_zero, ?_, ?_⟩
  · intro q u hq hu k hpres
    by_cases hc : u = root ∧ k = i
    · obtain ⟨rfl, rfl⟩ := hc
      rw [set_self] at hpres
      exact absurd hpres (by decide)
    · rw [set_of_ne hc] at hpres ⊢
      exact h.upper q u hq (hwalk q u (by omega) hu) k hpres
  · intro q u hne hq hu
    exact h.ne_zero q u hne hq (hwalk q u hq hu)

/-- And keeps the regions of the other slots. -/
theorem Wf.absRegion_clear_root {root i r : ℕ} (h : Wf tables root) (hi : r / 2 ^ 18 % 512 ≠ i) :
    absRegion (set tables root i 0) root r = absRegion tables root r := by
  refine absRegion_congr ?_ ?_ ?_
  · refine h.tree.walk_set (p := []) (Nat.zero_le 3) rfl (Nat.le_add_left 2 2) fun hc => ?_
    exact hi (List.cons_prefix_cons.1 hc).1.symm
  · intro pd hpd
    have hne := h.ne_root hpd (List.cons_ne_nil _ _) (Nat.le_succ 2)
    exact set_of_ne fun hc => hne hc.1
  · intro pt hpt
    have hne := h.ne_root hpt (List.cons_ne_nil _ _) (Nat.le_refl 3)
    exact set_row_of_ne hne

/-- **`vmm_init` leaves tables that runs can start from.** -/
theorem vmmInit_started {kernelEnd : ℕ} (hword : ∀ t i, s.tables t i < 2 ^ 64)
    (hans : Answers s.pmm) (hend : kernelHigherHalf + 0x100000 ≤ kernelEnd)
    (hlt : kernelEnd < 2 ^ 64) (hinit : vmmInit s kernelEnd = some (kernelPml4, s')) :
    Shared.Started kernelPml4 ⟨s'.tables, []⟩ := by
  obtain ⟨-, hne, s₀, hload, rfl⟩ := vmmInit_loading hword hans hend hlt hinit
  have hcut : cut (s₀.put kernelPml4 recursiveIndex (recursiveEntry kernelPml4)).tables kernelPml4 =
      set s₀.tables kernelPml4 recursiveIndex 0 := set_set ..
  refine ⟨?_, hne, ?_, rfl⟩
  · rw [hcut]
    exact hload.wf.clear_root recursiveIndex
  · intro virt hv base hhuge
    obtain ⟨hlow, hslot⟩ := hv
    rw [pml4Index_eq] at hlow hslot
    rw [hcut, hload.wf.absRegion_clear_root hslot] at hhuge
    have hregion := (hload.huge _ (regionOf_lt virt) base hhuge).1
    omega

/-! ## Two runs -/

/-- A PML4 that holds itself and nothing else. -/
def emptyKernel : Shared :=
  ⟨set (fun _ _ => 0) 0xFFFF800000100000 recursiveIndex (recursiveEntry 0xFFFF800000100000), []⟩

theorem cut_emptyKernel : cut emptyKernel.tables 0xFFFF800000100000 = fun _ _ => 0 := by
  rw [emptyKernel, cut, set_set]
  exact set_eq_self rfl

theorem zeroed_inv : World.Inv 0xFFFF800000100000 ⟨fun _ _ => 0, fun _ => .empty⟩ :=
  World.Inv.zeroed (fun _ _ => Nat.two_pow_pos 64) fun _ => rfl

theorem emptyKernel_started : emptyKernel.Started 0xFFFF800000100000 := by
  refine ⟨?_, by decide, ?_, rfl⟩
  · rw [cut_emptyKernel]
    exact zeroed_inv.wf
  · intro virt _ base
    rw [cut_emptyKernel, zeroed_inv.regions _ (regionOf_lt virt)]
    exact Region.noConfusion

/-- Three pages to open a slot with. -/
def threePages : List ℕ := [0xFFFF800000101000, 0xFFFF800000102000, 0xFFFF800000103000]

theorem threePages_fresh : Fresh ⟨fun _ _ => 0, threePages⟩ 0xFFFF800000100000 :=
  Fresh.zeroed (by decide) (by decide)

/-- The kernel opens a slot, an address space is created, and another page
is mapped in the slot. -/
def openedFirst : List SpaceOp :=
  [.mapPage 0xFFFF900000000000 0x5000 3 threePages, .create [0xFFFF800000104000],
    .mapPage 0xFFFF900000001000 0x7000 3 []]

/-- The page it then has. -/
theorem spaces_agree_openedFirst :
    let w := runFrom (Shared.step 0xFFFF800000100000) emptyKernel openedFirst
    w.Agree 0xFFFF800000100000 ∧ w.spaces = [0xFFFF800000104000] ∧
      vmmGetPhys w.tables 0xFFFF800000104000 0xFFFF900000001234 = 0x7234 := by
  intro w
  have hfirst : (SpaceOp.mapPage 0xFFFF900000000000 0x5000 3 threePages).Valid 0xFFFF800000100000
      emptyKernel := by
    refine ⟨by decide, by decide, by decide, ?_, fun _ _ => List.not_mem_nil⟩
    rw [cut_emptyKernel]
    exact threePages_fresh
  have hnone : ∀ tables : Tables ℕ, Fresh ⟨tables, []⟩ 0xFFFF800000100000 := fun _ =>
    ⟨fun a ha => absurd ha List.not_mem_nil, fun a ha => absurd ha List.not_mem_nil,
      List.Pairwise.nil⟩
  have hrun : Allowed (Shared.step 0xFFFF800000100000) (fun w op => op.Valid 0xFFFF800000100000 w)
      emptyKernel openedFirst := by
    refine ⟨hfirst, ⟨⟨?_, ?_, by decide⟩, fun _ _ => List.not_mem_nil⟩,
      ⟨by decide, by decide, by decide, hnone _, fun a ha => absurd ha List.not_mem_nil⟩, trivial⟩
    · intro a ha _
      rw [List.mem_singleton.1 ha]
      exact ⟨by decide, by decide, by decide⟩
    · -- the tables are the three pages of the first call
      intro a ha _ hu
      rw [List.mem_singleton.1 ha, (emptyKernel_started.inv.mapPage hfirst).2.1, cut_emptyKernel] at hu
      have hstays : Stays 0xFFFF800000100000 (pml4Index 0xFFFF900000000000)
          ⟨fun _ _ => 0, threePages⟩ (vmmMapPage ⟨fun _ _ => 0, threePages⟩ 0xFFFF800000100000
            0xFFFF900000000000 0x5000 3).2 := by
        refine vmmMapPage_stays zeroed_inv.wf threePages_fresh fun base => ?_
        rw [zeroed_inv.regions _ (regionOf_lt _)]
        exact Region.noConfusion
      rcases hstays.under _ hu with hu | hu
      · exact absurd (under_zeroed (fun _ => rfl) hu) (by decide)
      · exact absurd hu (by decide)
  have hslot : ∀ space ∈ (runFrom (Shared.step 0xFFFF800000100000) emptyKernel
      (openedFirst.take 2)).spaces, isPresent ((runFrom (Shared.step 0xFFFF800000100000) emptyKernel
        (openedFirst.take 2)).tables space (pml4Index 0xFFFF900000001000)) = true := by
    decide +kernel
  have hagree := (spaces_agree_iff emptyKernel_started hrun).2 ⟨?_, ?_, ?_, trivial⟩ 3
  · exact ⟨hagree, by decide +kernel, by decide +kernel⟩
  · rintro ⟨-, -, space, hs, -⟩
    cases hs
  · exact id
  · rintro ⟨-, -, space, hs, hempty⟩
    exact absurd ((hslot space hs).symm.trans hempty) (by decide)

/-- **A mapping that only the kernel sees.** The address space is created
first; the slot is then opened in the kernel's PML4 alone. -/
theorem later_slot_hidden :
    let w := runFrom (Shared.step 0xFFFF800000100000) emptyKernel
      [.create [0xFFFF800000104000], .mapPage 0xFFFF900000000000 0x5000 3 threePages]
    w.spaces = [0xFFFF800000104000] ∧
      vmmGetPhys w.tables 0xFFFF800000104000 0xFFFF900000000000 = 0 ∧
      vmmGetPhys w.tables 0xFFFF800000100000 0xFFFF900000000000 = 0x5000 ∧
      ¬ w.Agree 0xFFFF800000100000 := by
  intro w
  have hrun : w.spaces = [0xFFFF800000104000] ∧
      vmmGetPhys w.tables 0xFFFF800000104000 0xFFFF900000000000 = 0 ∧
      vmmGetPhys w.tables 0xFFFF800000100000 0xFFFF900000000000 = 0x5000 := by
    decide +kernel
  obtain ⟨hspaces, hspace, hkernel⟩ := hrun
  refine ⟨hspaces, hspace, hkernel, fun hagree => ?_⟩
  have heq := hagree 0xFFFF800000104000 (by rw [hspaces]; exact List.mem_cons_self)
    0xFFFF900000000000 (by decide)
  rw [hspace, hkernel] at heq
  exact absurd heq (by decide)

end Vmm

end Kos
