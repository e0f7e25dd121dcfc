import Kos.Kernel
import Kos.Common.ByteMem
import Mathlib.Data.Fin.VecNotation
/-!
# Kmalloc — the slab allocator, as `kmalloc.c` computes it

Eight caches of fixed-size objects carved out of pages. The header of an
object is its first 16 bytes: `next` at 0, `magic` at 8, `size` at 12. A
pointer handed out is the address after the header, and `NULL` is `0`.
The page allocator is outside: a call that asks it for pages is given
the pointer it answered with, and the result says how many pages were
asked for. Whatever the pages hold when they arrive stands in memory.
-/

namespace Kos

namespace Kmalloc

/-- `KMALLOC_MAX_SIZE`. -/
abbrev kmallocMaxSize : ℕ := 2048

/-- `sizeof(struct slab_header)`. -/
abbrev headerSize : ℕ := 16

/-- The mark of an object that was handed out. -/
def liveMagic : ℕ := 0xDEADBEEF

/-- `struct slab_cache`. -/
structure SlabCache where
  size : ℕ
  freeList : ℕ
  allocations : ℕ
  frees : ℕ

/-- The statics of `kmalloc.c` and memory. -/
structure Heap where
  slabs : Fin 8 → SlabCache
  initialized : Bool
  mem : ByteMem

/-- The heap before the first call. -/
def boot (mem : ByteMem) : Heap where
  slabs := fun _ => ⟨0, 0, 0, 0⟩
  initialized := false
  mem := mem

/-- The object sizes. -/
def sizes : Fin 8 → ℕ := ![16, 32, 64, 128, 256, 512, 1024, 2048]

/-- `kmalloc_init`. -/
def kmallocInit (h : Heap) : Heap :=
  { h with slabs := fun i => ⟨sizes i, 0, 0, 0⟩, initialized := true }

/-- `size_to_index`; `none` is `-1`. -/
def sizeToIndex (h : Heap) (size : ℕ) : Option (Fin 8) :=
  (List.finRange 8).find? fun i => size ≤ (h.slabs i).size

/-- Replace one cache. -/
def Heap.setSlab (h : Heap) (i : Fin 8) (slab : SlabCache) : Heap :=
  { h with slabs := Function.update h.slabs i slab }

/-- Write a whole header. -/
def writeHeader (mem : ByteMem) (o next magic size : ℕ) : ByteMem :=
  ((mem.store o 8 next).store (o + 8) 4 magic).store (o + 12) 4 size

/-- Split a page into objects, linked in order, the last one to `NULL`. -/
def buildList (mem : ByteMem) (page size : ℕ) : ByteMem :=
  let numObjs := pageSize / size
  let mem := (List.range (numObjs - 1)).foldl
    (fun mem i => writeHeader mem (page + i * size) (page + (i + 1) * size) 0 0) mem
  writeHeader mem (page + (numObjs - 1) * size) 0 0 0

/-- The new page becomes the free list of the cache. -/
def carve (h : Heap) (i : Fin 8) (page : ℕ) : Heap :=
  { h.setSlab i { h.slabs i with freeList := page } with
    mem := buildList h.mem page (h.slabs i).size }

/-- Hand out the first free object: it leaves the list and is marked. -/
def takeObject (h : Heap) (i : Fin 8) : Heap × ℕ :=
  let slab := h.slabs i
  let obj := slab.freeList
  let slab' := { slab with
    freeList := h.mem.load obj 8
    allocations := add64 slab.allocations 1 }
  ({ h.setSlab i slab' with
      mem := (h.mem.store (obj + 8) 4 liveMagic).store (obj + 12) 4 slab.size },
    obj + headerSize)

/-- What an allocation leaves: the heap, the pointer returned, and the
number of pages asked of the page allocator, if it was asked. -/
structure Result where
  heap : Heap
  ptr : ℕ
  request : Option ℕ

/-- `kmalloc`, where the page allocator answers with `answer`. -/
def kmalloc (h : Heap) (size answer : ℕ) : Result :=
  let h := if h.initialized then h else kmallocInit h
  if size = 0 then ⟨h, 0, none⟩
  else if size > kmallocMaxSize then
    let pages := add64 size (pageSize - 1) / pageSize
    if answer ≠ 0 then
      ⟨{ h with mem := h.mem.fill answer (mul64 pages pageSize) 0 }, answer, some pages⟩
    else ⟨h, 0, some pages⟩
  else
    match sizeToIndex h size with
    | none => ⟨h, 0, none⟩
    | some i =>
      if (h.slabs i).freeList ≠ 0 then
        let (h, p) := takeObject h i
        ⟨h, p, none⟩
      else if answer = 0 then ⟨h, 0, some 1⟩
      else
        let (h, p) := takeObject (carve h i answer) i
        ⟨h, p, some 1⟩

/-- `kzalloc`. -/
def kzalloc (h : Heap) (size answer : ℕ) : Result :=
  let r := kmalloc h size answer
  if r.ptr ≠ 0 then { r with heap := { r.heap with mem := r.heap.mem.fill r.ptr size 0 } }
  else r

/-- `kfree`, with the pages it passes to `pmm_free_pages`, if it does. -/
def kfree (h : Heap) (ptr : ℕ) : Heap × Option (ℕ × ℕ) :=
  if ptr = 0 then (h, none)
  else
    let obj := ptr - headerSize
    if h.mem.load (obj + 8) 4 ≠ liveMagic then (h, none)
    else
      let size := h.mem.load (obj + 12) 4
      if size > kmallocMaxSize then (h, some (ptr, (size + pageSize - 1) % 2 ^ 32 / pageSize))
      else
        match sizeToIndex h size with
        | none => (h, none)
        | some i =>
          let slab := h.slabs i
          ({ h.setSlab i { slab with
              freeList := obj
              frees := add64 slab.frees 1 } with
            mem := h.mem.store obj 8 slab.freeList }, none)

end Kmalloc

end Kos
