import Kos.Kernel
import Kos.Common.Radix
/-!
# Vmm — four-level page tables, as `vmm.c` computes them

A table is named by its pointer and holds 512 words. Every pointer the
code follows is page-aligned, since it comes out of an entry by
`PAGE_MASK`, so tables are pages and a word is found by table and index.
The answers of the page allocator are a list that calls consume from the
front; `0` is `NULL`, and so is an exhausted list. Invalidating the TLB
has no effect on the tables and is left out.
-/

namespace Kos

namespace Vmm

/-- `PT_PRESENT`. -/
abbrev ptPresent : ℕ := 0x001

/-- `PT_WRITABLE`. -/
abbrev ptWritable : ℕ := 0x002

/-- `PT_HUGE`. -/
abbrev ptHuge : ℕ := 0x080

/-- `~(HUGE_PAGE_SIZE - 1)`. -/
def hugeMask : ℕ := highMask 21

/-- `PML4_INDEX`. -/
def pml4Index (v : ℕ) : ℕ := (v >>> 39) &&& 0x1FF

/-- `PDPT_INDEX`. -/
def pdptIndex (v : ℕ) : ℕ := (v >>> 30) &&& 0x1FF

/-- `PD_INDEX`. -/
def pdIndex (v : ℕ) : ℕ := (v >>> 21) &&& 0x1FF

/-- `PT_INDEX`. -/
def ptIndex (v : ℕ) : ℕ := (v >>> 12) &&& 0x1FF

/-- The tables in memory and the answers the page allocator will give. -/
structure Mm where
  tables : Radix.Tables ℕ
  pmm : List ℕ

/-- `pmm_alloc_page`. -/
def pmmAllocPage (s : Mm) : ℕ × Mm :=
  match s.pmm with
  | [] => (0, s)
  | page :: rest => (page, { s with pmm := rest })

/-- `entry & PT_PRESENT`. -/
def isPresent (entry : ℕ) : Bool := entry &&& ptPresent != 0

/-- `entry & PT_HUGE`. -/
def isHuge (entry : ℕ) : Bool := entry &&& ptHuge != 0

/-- `PHYS_TO_VIRT(entry & PAGE_MASK)`. -/
def tableOf (entry : ℕ) : ℕ := physToVirt (entry &&& pageMask)

/-- Write one entry. -/
def Mm.put (s : Mm) (table index entry : ℕ) : Mm :=
  { s with tables := Radix.set s.tables table index entry }

/-- `get_or_create_table`. -/
def getOrCreateTable (s : Mm) (parent index flags : ℕ) : ℕ × Mm :=
  if isPresent (s.tables parent index) then (tableOf (s.tables parent index), s)
  else
    let (table, s) := pmmAllocPage s
    if table = 0 then (0, s)
    else
      let s := { s with tables := Function.update s.tables table fun _ => 0 }
      (table, s.put parent index (virtToPhys table ||| flags))

/-- `vmm_map_page`. -/
def vmmMapPage (s : Mm) (pml4 virt phys flags : ℕ) : Bool × Mm :=
  let (pdpt, s) := getOrCreateTable s pml4 (pml4Index virt) (ptPresent ||| ptWritable)
  if pdpt = 0 then (false, s)
  else
    let (pd, s) := getOrCreateTable s pdpt (pdptIndex virt) (ptPresent ||| ptWritable)
    if pd = 0 then (false, s)
    else
      let (pt, s) := getOrCreateTable s pd (pdIndex virt) (ptPresent ||| ptWritable)
      if pt = 0 then (false, s)
      else
        let s := if isPresent (s.tables pt (ptIndex virt)) then s.put pt (ptIndex virt) 0 else s
        (true, s.put pt (ptIndex virt) ((phys &&& pageMask) ||| flags))

/-- `vmm_map_huge_page`. -/
def vmmMapHugePage (s : Mm) (pml4 virt phys flags : ℕ) : Bool × Mm :=
  let (pdpt, s) := getOrCreateTable s pml4 (pml4Index virt) (ptPresent ||| ptWritable)
  if pdpt = 0 then (false, s)
  else
    let (pd, s) := getOrCreateTable s pdpt (pdptIndex virt) (ptPresent ||| ptWritable)
    if pd = 0 then (false, s)
    else
      let s := if isPresent (s.tables pd (pdIndex virt)) then s.put pd (pdIndex virt) 0 else s
      (true, s.put pd (pdIndex virt) ((phys &&& hugeMask) ||| flags ||| ptHuge))

/-- `vmm_unmap_page`. -/
def vmmUnmapPage (s : Mm) (pml4 virt : ℕ) : Mm :=
  if !isPresent (s.tables pml4 (pml4Index virt)) then s
  else
    let pdpt := tableOf (s.tables pml4 (pml4Index virt))
    if !isPresent (s.tables pdpt (pdptIndex virt)) then s
    else
      let pd := tableOf (s.tables pdpt (pdptIndex virt))
      if !isPresent (s.tables pd (pdIndex virt)) then s
      else if isHuge (s.tables pd (pdIndex virt)) then s.put pd (pdIndex virt) 0
      else s.put (tableOf (s.tables pd (pdIndex virt))) (ptIndex virt) 0

/-- `RECURSIVE_INDEX`. -/
abbrev recursiveIndex : ℕ := 510

/-- The entry that shows a PML4 to itself. -/
def recursiveEntry (pml4 : ℕ) : ℕ := virtToPhys pml4 ||| ptPresent ||| ptWritable

/-- The loop over the upper half of `kernel_pml4`: present entries are copied. -/
def copyKernelEntries (s : Mm) (kernelPml4 pml4 : ℕ) : Mm :=
  (List.range' 256 256).foldl
    (fun s i =>
      if isPresent (s.tables kernelPml4 i) then s.put pml4 i (s.tables kernelPml4 i) else s) s

/-- `vmm_create_address_space`. -/
def vmmCreateAddressSpace (s : Mm) (kernelPml4 : ℕ) : ℕ × Mm :=
  let (pml4, s) := pmmAllocPage s
  if pml4 = 0 then (0, s)
  else
    let s := { s with tables := Function.update s.tables pml4 fun _ => 0 }
    let s := copyKernelEntries s kernelPml4 pml4
    (virtToPhys pml4, s.put pml4 recursiveIndex (recursiveEntry pml4))

/-- `vmm_get_phys`; `0` is `NULL`. -/
def vmmGetPhys (tables : Radix.Tables ℕ) (pml4 virt : ℕ) : ℕ :=
  if !isPresent (tables pml4 (pml4Index virt)) then 0
  else
    let pdpt := tableOf (tables pml4 (pml4Index virt))
    if !isPresent (tables pdpt (pdptIndex virt)) then 0
    else
      let pd := tableOf (tables pdpt (pdptIndex virt))
      if !isPresent (tables pd (pdIndex virt)) then 0
      else if isHuge (tables pd (pdIndex virt)) then
        (tables pd (pdIndex virt) &&& hugeMask) ||| (virt &&& (hugePageSize - 1))
      else
        let pt := tableOf (tables pd (pdIndex virt))
        if !isPresent (tables pt (ptIndex virt)) then 0
        else (tables pt (ptIndex virt) &&& pageMask) ||| (virt &&& (pageSize - 1))

end Vmm

end Kos
