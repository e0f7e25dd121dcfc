import Kos.Vmm.Model
/-!
# Vmm — what an address space is

An address space gives each 2 MB region of the 48-bit addresses one of
three things: nothing, one huge page, or a table of 512 optional frames.
This is what the page tables are for, stated without them; the
operations below change one region and leave every other alone.
-/

namespace Kos

namespace Vmm

/-- What a 2 MB region is mapped to. -/
inductive Region
  | empty
  | huge (base : ℕ)
  | table (frames : ℕ → Option ℕ)

/-- An address space: the regions by number. -/
abbrev Space : Type := ℕ → Region

/-- The number of the region of an address; the bits above 47 are ignored. -/
def regionOf (virt : ℕ) : ℕ := virt / hugePageSize % 2 ^ 27

/-- The page of an address within its region. -/
def frameOf (virt : ℕ) : ℕ := virt / pageSize % 512

/-- The address without its offset in a page of the given size. -/
def roundTo (size addr : ℕ) : ℕ := size * (addr / size)

/-- **The translation of an address in its region**; unmapped is `0`. -/
def Region.translate (r : Region) (virt : ℕ) : ℕ :=
  match r with
  | .empty => 0
  | .huge base => base + virt % hugePageSize
  | .table frames =>
    match frames (frameOf virt) with
    | none => 0
    | some base => base + virt % pageSize

/-- **The translation of an address.** -/
def Space.translate (a : Space) (virt : ℕ) : ℕ := (a (regionOf virt)).translate virt

/-- The frames of a region that is not a huge page. -/
def Region.frames : Region → ℕ → Option ℕ
  | .table frames => frames
  | _ => fun _ => none

/-- Set one frame. -/
def Region.mapPage (r : Region) (i phys : ℕ) : Region :=
  .table (Function.update r.frames i (some (roundTo pageSize phys)))

/-- Remove the leaf that covers a page. -/
def Region.unmapPage (r : Region) (i : ℕ) : Region :=
  match r with
  | .table frames => .table (Function.update frames i none)
  | _ => .empty

/-- The calls of a run, with the answers of the page allocator. -/
inductive Op
  | mapPage (virt phys flags : ℕ) (pmm : List ℕ)
  | mapHugePage (virt phys flags : ℕ) (pmm : List ℕ)
  | unmapPage (virt : ℕ)
  deriving DecidableEq, Repr

/-- **What a call means**: a call that returned false means nothing. -/
def Space.step (a : Space) (op : Op) (ok : Bool) : Space :=
  if !ok then a
  else
    match op with
    | .mapPage virt phys _ _ =>
      Function.update a (regionOf virt) ((a (regionOf virt)).mapPage (frameOf virt) phys)
    | .mapHugePage virt phys _ _ =>
      Function.update a (regionOf virt) (.huge (roundTo hugePageSize phys))
    | .unmapPage virt =>
      Function.update a (regionOf virt) ((a (regionOf virt)).unmapPage (frameOf virt))

end Vmm

end Kos
