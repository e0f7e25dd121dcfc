import Kos.Vmm.Isolation
/-!
# Vmm — every page has one use

Address spaces are created, others allocate, free and write, and with
that the invariant holds in every run from the moment the kernel has its
PML4, with bitmaps of their own. So two user pages never share a frame,
no user address leads to a table of a user half or into a block of
somebody else, and what is done for one address space no other sees. That
pages do not come back is part of why: a free leaves the bit of its frame
set.
-/

namespace Kos

namespace Vmm

open Radix
open Pmm (privateBitmaps)

variable {mmap : List Pmm.MmapEntry} {m : Memory Pmm.State} {tables : Tables ℕ} {op : Memory.Op}
  {ops : List Memory.Op} {space virt page : ℕ} {p : Pmm.State}

/-! ## Creating an address space -/

/-- What a new PML4 is filled with are words. -/
theorem spaceRow_word (hword : ∀ t i, tables t i < 2 ^ 64) (kernel pml4 i : ℕ) :
    spaceRow tables kernel pml4 i < 2 ^ 64 := by
  by_cases hi : i = recursiveIndex
  · subst hi
    rw [spaceRow, Function.update_self, recursiveEntry]
    exact Nat.or_lt_two_pow (Nat.or_lt_two_pow (sub64_lt _ _) (by decide)) (by decide)
  · rw [spaceRow, Function.update_of_ne hi]
    split
    · exact hword kernel i
    · exact Nat.two_pow_pos 64

/-- Its user half is empty. -/
theorem userHalf_spaceRow (tables : Tables ℕ) (kernel pml4 i : ℕ) :
    userHalf (Function.update tables pml4 (spaceRow tables kernel pml4)) pml4 pml4 i = 0 := by
  by_cases hi : i < 256
  · have hslot : i ≠ recursiveIndex := fun hc => by
      rw [hc] at hi
      exact absurd hi (by decide)
    have hmem : ¬ (i ∈ List.range' 256 256 ∧ isPresent (tables kernel i) = true) := fun hc => by
      have hle := (List.mem_range'_1.1 hc.1).1
      omega
    rw [userHalf_of_user fun _ => hi, Function.update_self, spaceRow, Function.update_of_ne hslot,
      if_neg hmem]
  · exact userHalf_of_kernel (by omega)

theorem update_word (hword : ∀ t i, tables t i < 2 ^ 64) {row : ℕ → ℕ} (hrow : ∀ i, row i < 2 ^ 64)
    (page t i : ℕ) : Function.update tables page row t i < 2 ^ 64 := by
  by_cases ht : t = page
  · subst ht
    rw [Function.update_self]
    exact hrow i
  · rw [Function.update_of_ne ht]
    exact hword t i

/-- A page that is available can be filled: it is in no user half. -/
theorem Memory.Inv.kept_filled (h : m.Inv mmap) (hav : Pmm.Available m.pmm page) {row : ℕ → ℕ}
    (hrow : ∀ i, row i < 2 ^ 64) (hspace : space ∈ m.spaces) :
    KeepsHalf m.tables (Function.update m.tables page row) space := by
  refine h.kept hspace (update_word h.words hrow page) fun f hf i _ => ?_
  have hne : f ≠ page := fun hc => h.sole.taken f _ (.table hspace hf) (hc ▸ hav)
  rw [Function.update_of_ne hne]

/-- **A new address space** on a page that was just allocated. -/
theorem Memory.Inv.addSpace (h : m.Inv mmap) (hfirst : Pmm.Shrinks m.pmm p)
    (hav : Pmm.Available m.pmm page) (hgone : ¬ Pmm.Available p page) (hne : page ≠ 0)
    (kernel : ℕ) {spaces : List ℕ} (hmem : ∀ r ∈ spaces, r ∈ m.spaces ∨ r = page) :
    Memory.Inv mmap
      { m with
        pmm := p
        tables := Function.update m.tables page (spaceRow m.tables kernel page)
        spaces := spaces } := by
  have hempty := userHalf_spaceRow m.tables kernel page
  have hrow := spaceRow_word h.words kernel page
  have hword := update_word h.words hrow page
  have hkept : ∀ r ∈ m.spaces, KeepsHalf m.tables _ r := fun r hr => h.kept_filled hav hrow hr
  generalize Function.update m.tables page (spaceRow m.tables kernel page) = tables' at *
  have hzeroed := World.Inv.zeroed (userHalf_word hword page) hempty
  have huses : ∀ a use, Vmm.Uses tables' spaces m.blocks a use →
      m.Uses a use ∨ use = .table page ∧ Pmm.Available m.pmm a ∧ ¬ Pmm.Available p a := by
    intro a use hu
    cases hu with
    | @table r f hr hf =>
      obtain hr | rfl := hmem r hr
      · exact Or.inl (.table hr ((hkept r hr).under a hf))
      · rw [under_zeroed hempty hf]
        exact Or.inr ⟨rfl, hav, hgone⟩
    | @page r virt hr hv hmapped =>
      obtain hr | rfl := hmem r hr
      · exact Or.inl ((hkept r hr).usesPage hr hv hmapped)
      · rw [vmmGetPhys_userHalf hzeroed.wf hv, hzeroed.wf.vmmGetPhys_eq,
          hzeroed.regions _ (regionOf_lt virt)] at hmapped
        exact absurd rfl hmapped
    | block hblock hk => exact Or.inl (.block hblock hk)
  refine ⟨hfirst.layout.trans h.layout, hword, h.kernel, fun r hr => ?_, fun r hr => ?_,
    fun r hr k hk base => ?_, h.sole.step_one hfirst.available huses⟩
  · obtain hr | rfl := hmem r hr
    · exact h.ne_zero r hr
    · exact hne
  · obtain hr | rfl := hmem r hr
    · exact (hkept r hr).wf
    · exact hzeroed.wf
  · obtain hr | rfl := hmem r hr
    · rw [(hkept r hr).regions]
      exact h.small r hr k hk base
    · rw [hzeroed.regions k hk]
      exact Region.noConfusion

/-! ## The kernel's PML4 -/

theorem blockPage_zero {ptr : ℕ} (h : ptr < 2 ^ 64) : Pmm.blockPage ptr 0 = ptr := by
  simp only [Pmm.blockPage, add64, mul64]
  omega

theorem kernelPml4_lt (hok : Pmm.MapOk mmap) : kernelPml4 mmap < 2 ^ 64 := by
  by_cases hne : kernelPml4 mmap = 0
  · rw [hne]
    exact Nat.two_pow_pos 64
  · have hlay := Pmm.SameLayout.refl (Pmm.pmmInit mmap)
    exact ((Pmm.pmmAllocPage_page hok hlay hne).1.addr hok hlay).1

/-- It is not handed out again. -/
theorem Memory.Inv.ne_kernelPml4 (hok : Pmm.MapOk mmap) (h : m.Inv mmap)
    (hav : Pmm.Available m.pmm page) : page ≠ kernelPml4 mmap := by
  have huse : m.Uses (Pmm.blockPage (kernelPml4 mmap) 0) _ := .block h.kernel Nat.one_pos
  rw [blockPage_zero (kernelPml4_lt hok)] at huse
  exact fun hc => h.sole.taken _ _ huse (hc ▸ hav)

/-! ## One step -/

/-- What `vmm_create_address_space` does: nothing, or it fills the page that
was just allocated. -/
theorem Memory.Inv.create_cases (hok : Pmm.MapOk mmap) (h : m.Inv mmap) :
    let first := Pmm.pmmAllocPage m.pmm
    privateStep mmap m .create = { m with pmm := first.1 } ∨
      first.2 ≠ 0 ∧ Pmm.Available m.pmm first.2 ∧ ¬ Pmm.Available first.1 first.2 ∧
        privateStep mmap m .create =
          { m with
            pmm := first.1
            tables := Function.update m.tables first.2
              (spaceRow m.tables (kernelPml4 mmap) first.2)
            spaces := if virtToPhys first.2 = 0 then m.spaces else first.2 :: m.spaces } := by
  intro first
  by_cases hpage : (Pmm.pmmAllocPage m.pmm).2 = 0
  · have hnone : vmmCreateAddressSpace ⟨m.tables, [(Pmm.pmmAllocPage m.pmm).2]⟩ (kernelPml4 mmap) =
        (0, ⟨m.tables, []⟩) := if_pos hpage
    left
    simp only [Memory.step, Pmm.answers, Pmm.afterPages, Pmm.privateBitmaps_allocPage, hnone,
      if_true, first]
  · obtain ⟨hav, hgone⟩ := Pmm.pmmAllocPage_page hok h.layout hpage
    obtain ⟨hlt, -⟩ := hav.addr hok h.layout
    have hback : physToVirt (virtToPhys (Pmm.pmmAllocPage m.pmm).2) = (Pmm.pmmAllocPage m.pmm).2 :=
      add64_sub64_cancel hlt
    refine Or.inr ⟨hpage, hav, hgone, ?_⟩
    simp only [Memory.step, Pmm.answers, Pmm.afterPages, Pmm.privateBitmaps_allocPage,
      vmmCreateAddressSpace_cons hpage (h.ne_kernelPml4 hok hav), hback, first]

/-- **`vmm_create_address_space`.** -/
theorem Memory.Inv.create (hok : Pmm.MapOk mmap) (h : m.Inv mmap) :
    (privateStep mmap m .create).Inv mmap := by
  have hfirst := (Pmm.pmmAllocPage_grants hok h.layout).shrinks
  obtain heq | ⟨hpage, hav, hgone, heq⟩ := h.create_cases hok
  · rw [heq]
    exact h.shrink hfirst
  · rw [heq]
    refine h.addSpace hfirst hav hgone hpage (kernelPml4 mmap) fun r hr => ?_
    split at hr
    · exact Or.inl hr
    · exact (List.mem_cons.1 hr).symm

/-- **Blocks that others are given.** -/
theorem Memory.Inv.alloc (hok : Pmm.MapOk mmap) (h : m.Inv mmap) (r : Pmm.Request) :
    (privateStep mmap m (.alloc r)).Inv mmap := by
  obtain ⟨hshrinks, hpages⟩ := Pmm.Request.exec_grants hok h.layout r
  change Memory.Inv mmap
    { m with
      pmm := (r.exec m.pmm).1
      blocks := if (r.exec m.pmm).2 = 0 then m.blocks else ((r.exec m.pmm).2, r.count) :: m.blocks }
  generalize r.exec m.pmm = out at *
  obtain ⟨p, ptr⟩ := out
  have huses : ∀ a use, Vmm.Uses m.tables m.spaces
      (if ptr = 0 then m.blocks else (ptr, r.count) :: m.blocks) a use →
      m.Uses a use ∨ use = .block ptr ∧ Pmm.Available m.pmm a ∧ ¬ Pmm.Available p a := by
    intro a use hu
    cases hu with
    | table hr hf => exact Or.inl (.table hr hf)
    | page hr hv hmapped => exact Or.inl (.page hr hv hmapped)
    | @block ptr' count k hblock hk =>
      split at hblock
      · exact Or.inl (.block hblock hk)
      · rename_i hne
        obtain heq | hblock := List.mem_cons.1 hblock
        · obtain ⟨rfl, rfl⟩ := Prod.mk.inj heq
          exact Or.inr ⟨rfl, hpages hne k hk⟩
        · exact Or.inl (.block hblock hk)
  refine ⟨hshrinks.layout.trans h.layout, h.words, ?_, h.ne_zero, h.wf, h.small,
    h.sole.step_one hshrinks.available huses⟩
  simp only
  split
  · exact h.kernel
  · exact List.mem_cons_of_mem _ h.kernel

/-- **What the rest of the kernel writes.** -/
theorem Memory.Inv.write (h : m.Inv mmap) (hop : m.Permitted (.write tables)) :
    Memory.Inv mmap { m with tables := tables } := by
  obtain ⟨hword, hsame⟩ := hop
  have hkept : ∀ r ∈ m.spaces, KeepsHalf m.tables tables r := fun r hr =>
    h.kept hr hword (hsame r hr)
  refine ⟨h.layout, hword, h.kernel, h.ne_zero, fun r hr => (hkept r hr).wf,
    fun r hr k hk base => ?_, h.sole.mono (fun _ hfree => hfree) ?_⟩
  · rw [(hkept r hr).regions]
    exact h.small r hr k hk base
  · intro a use hu
    cases hu with
    | @table r f hr hf => exact .table hr ((hkept r hr).under a hf)
    | @page r virt hr hv hmapped => exact (hkept r hr).usesPage hr hv hmapped
    | block hblock hk => exact .block hblock hk

/-- The calls made for an address space. -/
def Memory.Op.IsFor (space : ℕ) : Memory.Op → Prop
  | .mapPages pml4 _ _ _ => pml4 = space
  | .unmapPage pml4 _ => pml4 = space
  | _ => False

/-- **What is not done for an address space** is not seen in its user half. -/
theorem Memory.Inv.step_private (hok : Pmm.MapOk mmap) (h : m.Inv mmap) (hop : m.Permitted op)
    (hspace : space ∈ m.spaces) (hoff : ¬ op.IsFor space) :
    space ∈ (privateStep mmap m op).spaces ∧ ∀ virt, UserAddr virt →
      vmmGetPhys (privateStep mmap m op).tables space virt =
        vmmGetPhys m.tables space virt := by
  cases op with
  | create =>
    obtain heq | ⟨hpage, hav, -, heq⟩ := h.create_cases hok
    · rw [heq]
      exact ⟨hspace, fun _ _ => rfl⟩
    · rw [heq]
      refine ⟨?_, (h.kept_filled hav (spaceRow_word h.words _ _) hspace).getPhys⟩
      simp only
      split
      · exact hspace
      · exact List.mem_cons_of_mem _ hspace
  | mapPages pml4 virt count flags =>
    exact ⟨hspace, (h.mapPages hok hop).others space hspace (Ne.symm hoff)⟩
  | unmapPage pml4 virt =>
    exact ⟨hspace, (h.unmapPage hop.1 hop.2).others space hspace (Ne.symm hoff)⟩
  | alloc r => exact ⟨hspace, fun _ _ => rfl⟩
  | freePage addr => exact ⟨hspace, fun _ _ => rfl⟩
  | freePages addr count => exact ⟨hspace, fun _ _ => rfl⟩
  | write tables => exact ⟨hspace, (h.kept hspace hop.1 (hop.2 space hspace)).getPhys⟩

/-- **Every step keeps the invariant.** -/
theorem Memory.Inv.step (hok : Pmm.MapOk mmap) (h : m.Inv mmap) (hop : m.Permitted op) :
    (privateStep mmap m op).Inv mmap := by
  cases op with
  | create => exact h.create hok
  | mapPages space virt count flags => exact (h.mapPages hok hop).inv
  | unmapPage space virt => exact (h.unmapPage hop.1 hop.2).inv
  | alloc r => exact h.alloc hok r
  | freePage addr => exact h.shrink (Pmm.pmmFreePage_shrinks m.pmm addr)
  | freePages addr count => exact h.shrink (Pmm.pmmFreePages_shrinks m.pmm addr count)
  | write tables => exact h.write hop

/-! ## Runs -/

/-- **The invariant at boot**, whatever is in memory. -/
theorem Memory.boot_inv (hok : Pmm.MapOk mmap) (hkernel : kernelPml4 mmap ≠ 0)
    (hword : ∀ t i, tables t i < 2 ^ 64) :
    (Memory.boot privateBitmaps (Pmm.pmmInit mmap) tables).Inv mmap := by
  have hlay := Pmm.SameLayout.refl (Pmm.pmmInit mmap)
  have hgone := (Pmm.pmmAllocPage_page hok hlay hkernel).2
  have huses : ∀ a use, (Memory.boot privateBitmaps (Pmm.pmmInit mmap) tables).Uses a use →
      a = kernelPml4 mmap ∧ use = .block (kernelPml4 mmap) := by
    intro a use hu
    cases hu with
    | table hr _ => cases hr
    | page hr _ _ => cases hr
    | @block ptr count k hblock hk =>
      obtain ⟨rfl, rfl⟩ := Prod.mk.inj (List.mem_singleton.1 hblock)
      obtain rfl : k = 0 := by omega
      exact ⟨blockPage_zero (kernelPml4_lt hok), rfl⟩
  refine ⟨(Pmm.pmmAllocPage_grants hok hlay).shrinks.layout, hword, List.mem_singleton_self _,
    fun r hr => absurd hr List.not_mem_nil, fun r hr => absurd hr List.not_mem_nil,
    fun r hr => absurd hr List.not_mem_nil, ⟨fun a use use' hu hu' => ?_, fun a use hu => ?_⟩⟩
  · exact (huses a use hu).2.trans (huses a use' hu').2.symm
  · rw [(huses a use hu).1]
    exact hgone

/-- **The invariant after every run.** -/
theorem Memory.Inv.run (hok : Pmm.MapOk mmap) (h : m.Inv mmap)
    (hrun : Allowed (privateStep mmap) Memory.Permitted m ops) :
    (runFrom (privateStep mmap) m ops).Inv mmap :=
  hrun.invariant (P := Memory.Inv mmap) (fun _ _ h hop => h.step hok hop) h

/-- What is in use is not answered with. -/
theorem Memory.Inv.not_answered (hok : Pmm.MapOk mmap) (h : m.Inv mmap) {use : Use}
    (hu : m.Uses page use) (r : Pmm.Request) (hne : (r.exec m.pmm).2 ≠ 0) {k : ℕ}
    (hk : k < r.count) : Pmm.blockPage (r.exec m.pmm).2 k ≠ page := by
  have hgrants := Pmm.Request.exec_grants hok h.layout r
  exact fun hc => h.sole.taken page use hu (hc ▸ (hgrants.pages hne k hk).1)

/-- A run in which nothing is done for an address space. -/
theorem Memory.Inv.run_private (hok : Pmm.MapOk mmap) (h : m.Inv mmap)
    (hrun : Allowed (privateStep mmap) Memory.Permitted m ops) (hspace : space ∈ m.spaces)
    (hoff : ∀ op ∈ ops, ¬ op.IsFor space) (hv : UserAddr virt) :
    vmmGetPhys (runFrom (privateStep mmap) m ops).tables space virt =
      vmmGetPhys m.tables space virt := by
  induction ops generalizing m with
  | nil => rfl
  | cons op ops ih =>
    obtain ⟨hstays, hsame⟩ := h.step_private hok hrun.1 hspace (hoff op List.mem_cons_self)
    have hrest := ih (h.step hok hrun.1) hrun.2 hstays fun op' hop' =>
      hoff op' (List.mem_cons_of_mem op hop')
    exact hrest.trans (hsame virt hv)

end Vmm

end Kos
