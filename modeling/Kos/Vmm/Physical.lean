import Kos.Common.Simulation
import Kos.Pmm.Spare
import Kos.Vmm.Owners
/-!
# Vmm — address spaces over physical memory

The bitmaps of the allocator lie in memory that it may hand out, and a
page that is handed out is cleared. So what holds with private bitmaps
does not hold of every map: a page of a bitmap that is handed out makes
pages that are in use available. On a map that offers no such page the
two allocators answer alike, and every page has one use.

The bitmaps are written by the allocator alone. The tables that are
written lie in pages it handed out, and what the rest of the kernel
writes leaves its bitmaps alone.
-/

namespace Kos

namespace Vmm

open Radix
open Pmm (physical privateBitmaps)

variable {mem : ByteMem} {mmap : List Pmm.MmapEntry} {s₀ : Pmm.Phys} {tables : Tables ℕ}
  {ops : List Memory.Op} {space virt : ℕ}

/-! ## Two machines in step -/

section Related

variable {σ τ : Type} {A : Pmm.Allocator σ} {B : Pmm.Allocator τ} {R : σ → τ → Prop}
  {m : Memory σ} {n : Memory τ}

/-- **They differ in the allocator alone.** -/
structure Memory.Related (R : σ → τ → Prop) (m : Memory σ) (n : Memory τ) : Prop where
  pmm : R m.pmm n.pmm
  tables : m.tables = n.tables
  spaces : m.spaces = n.spaces
  blocks : m.blocks = n.blocks

theorem Memory.Related.uses (h : m.Related R n) : m.Uses = n.Uses := by
  rw [Memory.Uses, Memory.Uses, h.tables, h.spaces, h.blocks]

theorem Memory.Related.permitted (h : m.Related R n) {op : Memory.Op} (hop : m.Permitted op) :
    n.Permitted op := by
  cases op with
  | mapPages pml4 virt count flags =>
    obtain ⟨hspace, hrest⟩ := hop
    exact ⟨h.spaces ▸ hspace, hrest⟩
  | unmapPage pml4 virt =>
    obtain ⟨hspace, hv⟩ := hop
    exact ⟨h.spaces ▸ hspace, hv⟩
  | write tables =>
    obtain ⟨hword, hsame⟩ := hop
    rw [h.spaces, h.tables] at hsame
    exact ⟨hword, hsame⟩
  | _ => trivial

/-- **A step keeps them so**, if the one allocator simulates the other. -/
theorem Memory.Related.step (hsim : A.Simulates B R) (kernel : ℕ) (h : m.Related R n)
    (op : Memory.Op) : (m.step A kernel op).Related R (n.step B kernel op) := by
  obtain ⟨p, tables, spaces, blocks⟩ := m
  obtain ⟨q, tables', spaces', blocks'⟩ := n
  obtain ⟨hpq, rfl, rfl, rfl⟩ := h
  cases op with
  | create =>
    have hans := hsim.answers 1 p q hpq
    simp only [Memory.step, hans]
    exact ⟨hsim.afterPages 1 p q hpq, rfl, rfl, rfl⟩
  | mapPages pml4 virt count flags =>
    have hans := hsim.answers (4 * count) p q hpq
    simp only [Memory.step, hans]
    exact ⟨hsim.afterPages _ p q hpq, rfl, rfl, rfl⟩
  | unmapPage pml4 virt => exact ⟨hpq, rfl, rfl, rfl⟩
  | alloc r =>
    obtain ⟨hans, hrest⟩ := hsim.alloc p q r hpq
    simp only [Memory.step, hans]
    exact ⟨hrest, rfl, rfl, rfl⟩
  | freePage addr => exact ⟨hsim.freePage p q addr hpq, rfl, rfl, rfl⟩
  | freePages addr count => exact ⟨hsim.freePages p q addr count hpq, rfl, rfl, rfl⟩
  | write tables' => exact ⟨hpq, rfl, rfl, rfl⟩

end Related

/-! ## Runs over physical memory -/

/-- **One step** after `pmm_init` left `s₀`, whose first page is the PML4
of the kernel. -/
abbrev physicalStep (s₀ : Pmm.Phys) (m : Memory Pmm.Phys) (op : Memory.Op) : Memory Pmm.Phys :=
  m.step physical (s₀.alloc .page).2 op

section Runs

variable (hok : Pmm.MapOk mmap) (hmap : Pmm.OffersSpare mmap)
  (hinit : Pmm.physInit mem mmap = some s₀)
include hok hmap hinit

theorem kernelPml4_eq : (s₀.alloc .page).2 = kernelPml4 mmap :=
  (hok.physical_simulates.allocPage _ _ (hmap.sim_init hinit)).1

/-- At boot the machines are in step. -/
theorem Memory.boot_related : (Memory.boot physical s₀ tables).Related (Pmm.SpareSim mmap)
    (Memory.boot privateBitmaps (Pmm.pmmInit mmap) tables) := by
  obtain ⟨hans, hrest⟩ := hok.physical_simulates.allocPage _ _ (hmap.sim_init hinit)
  exact ⟨hrest, rfl, rfl, congrArg (fun ptr => [(ptr, 1)]) hans⟩

/-- **A run over physical memory** is one with private bitmaps. -/
theorem Memory.run_related
    (hrun : Allowed (physicalStep s₀) Memory.Permitted (Memory.boot physical s₀ tables) ops) :
    Allowed (privateStep mmap) Memory.Permitted
        (Memory.boot privateBitmaps (Pmm.pmmInit mmap) tables) ops ∧
      (runFrom (physicalStep s₀) (Memory.boot physical s₀ tables) ops).Related (Pmm.SpareSim mmap)
        (runFrom (privateStep mmap) (Memory.boot privateBitmaps (Pmm.pmmInit mmap) tables)
          ops) := by
  have hstep : ∀ m n op, Memory.Related (Pmm.SpareSim mmap) m n →
      (physicalStep s₀ m op).Related (Pmm.SpareSim mmap) (privateStep mmap n op) := by
    intro m n op h
    rw [physicalStep, kernelPml4_eq hok hmap hinit]
    exact h.step hok.physical_simulates (kernelPml4 mmap) op
  exact hrun.related (fun _ _ _ h hop => h.permitted hop) hstep
    (Memory.boot_related hok hmap hinit)

end Runs

/-! ## The uses of pages -/

/-- Thirty-two frames. -/
def userMap : List Pmm.MmapEntry := [⟨0x1000000, 0x20000, 1⟩]

theorem userMap_ok : Pmm.MapOk userMap where
  disjoint := List.pairwise_singleton _ _
  below e he _ := by
    rw [userMap, List.mem_singleton] at he
    subst he
    decide

/-- The bitmaps end at the second megabyte. -/
theorem userMap_spare : Pmm.OffersSpare userMap := by
  intro z f hf _ _ w hw
  obtain ⟨e, he, -, -, hlo, -⟩ := Pmm.mem_claimed.1 hf
  rw [userMap, List.mem_singleton] at he
  subst he
  have hlow : (⟨0x1000000, 0x20000, 1⟩ : Pmm.MmapEntry).lo = 0x1000 := by decide
  have hend : ∀ w, 0x100 + Pmm.bitmapPos (Pmm.mapBytes userMap) w +
      Pmm.bitmapPages (Pmm.mapBytes userMap w) ≤ 0x200 := by
    intro w
    cases w <;> decide +kernel
  have hle := hend w
  have hlt := hw.2.2
  omega

/-- Over zeroed memory. -/
def userPhys : Pmm.Phys := (Pmm.physInit (fun _ => 0) userMap).get (by decide +kernel)

theorem physInit_user : Pmm.physInit (fun _ => 0) userMap = some userPhys :=
  (Option.some_get _).symm

/-- Two address spaces, and a page in the first. -/
def twoSpaces : List Memory.Op :=
  [.create, .create, .mapPages 0xFFFF800001001000 0x400000 1 7]

/-- The same page in the second; the frame of the first is freed, and a
page is allocated. -/
def secondSpace : List Memory.Op :=
  [.mapPages 0xFFFF800001002000 0x400000 1 7, .freePage 0xFFFF800001003000, .alloc .page]

theorem secondSpace_allowed : Allowed (physicalStep userPhys) Memory.Permitted
    (Memory.boot physical userPhys fun _ _ => 0) (twoSpaces ++ secondSpace) :=
  ⟨trivial, trivial, ⟨by decide +kernel, by decide, by decide⟩,
    ⟨by decide +kernel, by decide, by decide⟩, trivial, trivial, trivial⟩

end Vmm

end Kos
