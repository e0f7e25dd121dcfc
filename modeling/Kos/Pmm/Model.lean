import Kos.Kernel
import Mathlib.Data.List.Range
/-!
# Pmm — the physical memory manager, as `memory.c` computes it

Three zones, each with a frame range, a bitmap and a counter. `pmmInit`
reads the memory map in two passes; the three allocators differ in their
gate and their search and share the marking; `pmmFreePage` walks the
zones. A bitmap is private storage of its zone here, so the clearing of
the block that is handed out leaves the bitmaps alone. Over physical
memory (`Phys.alloc`) it may not: `Phys.take_agrees_iff` says when the two
come to the same. The unused buddy lists and the boot messages are left
out.
-/

namespace Kos

namespace Pmm

/-- The three zones: `ZONE_DMA`, `ZONE_DMA32`, `ZONE_NORMAL`. -/
inductive ZoneIdx
  | dma
  | dma32
  | normal
  deriving DecidableEq, Repr

/-- `struct memory_zone`. -/
structure MemoryZone where
  basePfn : ℕ
  endPfn : ℕ
  totalPages : ℕ
  freePages : ℕ
  bitmap : Bitmap

/-- The number of frames a zone's bitmap has a bit for. -/
def MemoryZone.span (zone : MemoryZone) : ℕ := zone.endPfn - zone.basePfn

/-- The bit of a zone's bitmap at an index: set is used. -/
def MemoryZone.used (zone : MemoryZone) (idx : ℕ) : Bool := bitmapTest zone.bitmap idx

/-- The statics of `memory.c`. -/
structure State where
  zones : ZoneIdx → MemoryZone
  totalSystemPages : ℕ

/-- Replace one zone. -/
def State.setZone (s : State) (z : ZoneIdx) (zone : MemoryZone) : State :=
  { s with zones := Function.update s.zones z zone }

@[simp] theorem State.setZone_self (s : State) (z : ZoneIdx) (zone : MemoryZone) :
    (s.setZone z zone).zones z = zone := Function.update_self ..

theorem State.setZone_of_ne {s : State} {z w : ZoneIdx} {zone : MemoryZone} (h : w ≠ z) :
    (s.setZone z zone).zones w = s.zones w := Function.update_of_ne h ..

/-- What holds of the zone written and of every other holds of all. -/
theorem State.setZone_forall {P : ZoneIdx → MemoryZone → Prop} {s : State} {z : ZoneIdx}
    {zone : MemoryZone} (hz : P z zone) (h : ∀ w, w ≠ z → P w (s.zones w)) (w : ZoneIdx) :
    P w ((s.setZone z zone).zones w) := by
  by_cases hw : w = z
  · rw [hw, State.setZone_self]
    exact hz
  · rw [State.setZone_of_ne hw]
    exact h w hw

/-! ## Initialisation -/

/-- `struct multiboot_mmap_entry`. -/
structure MmapEntry where
  baseAddr : UInt64
  length : UInt64
  type : UInt32
  deriving DecidableEq, Repr

/-- `e->type == MULTIBOOT_MEMORY_AVAILABLE`. -/
def MmapEntry.available (e : MmapEntry) : Bool := e.type == 1

/-- The first page boundary at or above the entry's base. -/
def MmapEntry.start (e : MmapEntry) : ℕ :=
  add64 e.baseAddr.toNat (pageSize - 1) &&& pageMask

/-- The last page boundary at or below the entry's end. -/
def MmapEntry.stop (e : MmapEntry) : ℕ :=
  add64 e.baseAddr.toNat e.length.toNat &&& pageMask

/-- Nothing below 1 MB is used. -/
def clipLow (start : ℕ) : ℕ := if start < 0x100000 then 0x100000 else start

/-- The zone an entry goes to, read off its end. -/
def zoneIdxOf (stop : ℕ) : ZoneIdx :=
  if stop ≤ 0x1000000 then .dma else if stop ≤ 0x100000000 then .dma32 else .normal

/-- A zone before the map is read. -/
def emptyZone : MemoryZone where
  basePfn := 0xFFFFFFFFFFFFFFFF
  endPfn := 0
  totalPages := 0
  freePages := 0
  bitmap := fun _ => 0#64

/-- The zone grown by the range `[start, stop)`. -/
def MemoryZone.extend (zone : MemoryZone) (start stop : ℕ) : MemoryZone where
  basePfn := if start < mul64 zone.basePfn pageSize then start / pageSize else zone.basePfn
  endPfn := if stop > mul64 zone.endPfn pageSize then stop / pageSize else zone.endPfn
  totalPages := add64 zone.totalPages ((stop - start) / pageSize)
  freePages := zone.freePages
  bitmap := zone.bitmap

/-- One entry of the first pass: it extends its zone. -/
def addEntry (s : State) (e : MmapEntry) : State :=
  if !e.available then s
  else if e.start ≥ e.stop then s
  else if e.stop ≤ 0x100000 then s
  else
    let start := clipLow e.start
    let z := zoneIdxOf e.stop
    { zones := Function.update s.zones z ((s.zones z).extend start e.stop)
      totalSystemPages := add64 s.totalSystemPages ((e.stop - start) / pageSize) }

/-- The bitmap phase: a populated zone gets a bitmap with every bit set. -/
def fillBitmaps (s : State) : State :=
  { s with
    zones := fun z =>
      if (s.zones z).totalPages = 0 then s.zones z
      else { s.zones z with bitmap := bitmapFull } }

/-- The page addresses the second pass steps through. -/
def pageAddrs (start stop : ℕ) : List ℕ :=
  (List.range ((stop - start + (pageSize - 1)) / pageSize)).map fun i => start + pageSize * i

/-- One page of the second pass: its bit is cleared and counted. -/
def freeEntryPage (z : ZoneIdx) (s : State) (addr : ℕ) : State :=
  let zone := s.zones z
  let pfn := addr / pageSize
  if zone.totalPages = 0 then s
  else if pfn < zone.basePfn ∨ pfn ≥ zone.endPfn then s
  else
    s.setZone z { zone with
      bitmap := bitmapClear zone.bitmap (pfn - zone.basePfn)
      freePages := add64 zone.freePages 1 }

/-- One entry of the second pass. -/
def freeEntry (s : State) (e : MmapEntry) : State :=
  if !e.available then s
  else (pageAddrs (clipLow e.start) e.stop).foldl (freeEntryPage (zoneIdxOf e.stop)) s

/-- One frame of the reservation loop, which looks at `ZONE_NORMAL` only. -/
def reservePage (s : State) (pfn : ℕ) : State :=
  let zone := s.zones .normal
  if pfn ≥ zone.basePfn then
    s.setZone .normal { zone with
      bitmap := bitmapSet zone.bitmap (pfn - zone.basePfn)
      freePages := if zone.freePages > 0 then sub64 zone.freePages 1 else zone.freePages }
  else s

/-- The reservation of the first 16 MB. -/
def reserveKernel (s : State) : State :=
  (List.range (min 0x1000 (s.zones .normal).endPfn)).foldl reservePage s

/-- `pmm_init`, from the entries of the memory map on. -/
def pmmInit (mmap : List MmapEntry) : State :=
  let empty : State := { zones := fun _ => emptyZone, totalSystemPages := 0 }
  reserveKernel (mmap.foldl freeEntry (fillBitmaps (mmap.foldl addEntry empty)))

/-! ## Allocation -/

/-- The search of `pmm_alloc_page`: the first clear bit. -/
def findPage (zone : MemoryZone) : Option ℕ :=
  (List.range' zone.basePfn zone.span).find? fun pfn => !zone.used (pfn - zone.basePfn)

/-- The scan of `pmm_alloc_pages`, with its two accumulators. -/
def scanRun (zone : MemoryZone) (count : ℕ) : List ℕ → ℕ → ℕ → Option ℕ
  | [], _, _ => none
  | pfn :: rest, consecutive, startPfn =>
    if !zone.used (pfn - zone.basePfn) then
      let startPfn := if consecutive = 0 then pfn else startPfn
      if consecutive + 1 ≥ count then some startPfn
      else scanRun zone count rest (consecutive + 1) startPfn
    else scanRun zone count rest 0 startPfn

/-- The search of `pmm_alloc_pages`. -/
def findRun (count : ℕ) (zone : MemoryZone) : Option ℕ :=
  scanRun zone count (List.range' zone.basePfn zone.span) 0 0

/-- Are the 512 frames from `pfn` on in the zone and free? -/
def hugeFree (zone : MemoryZone) (pfn : ℕ) : Bool :=
  (List.range 512).all fun i =>
    decide (pfn + i - zone.basePfn < zone.span) && !zone.used (pfn + i - zone.basePfn)

/-- The search of `pmm_alloc_huge_page`, in strides of 512 from the base. -/
def findHuge (zone : MemoryZone) : Option ℕ :=
  ((List.range (zone.span / 512)).map fun i => zone.basePfn + 512 * i).find? (hugeFree zone)

/-- The three searches the allocators make. -/
inductive Request
  | page
  | pages (count : ℕ)
  | huge
  deriving DecidableEq, Repr

/-- The number of frames a request takes. -/
def Request.count : Request → ℕ
  | .page => 1
  | .pages count => count
  | .huge => 512

/-- The gate on `free_pages`, read without the lock: `true` skips the zone. -/
def Request.skips : Request → ℕ → Bool
  | .page, free => free == 0
  | .pages count, free => decide (free < count)
  | .huge, free => decide (free < 512)

/-- The search made under the lock. -/
def Request.search : Request → MemoryZone → Option ℕ
  | .page => findPage
  | .pages count => findRun count
  | .huge => findHuge

/-- The zone with `count` frames from `pfn` on marked and uncounted, in a
bitmap no other memory overlaps; `Phys.take` is without that proviso. -/
def MemoryZone.mark (zone : MemoryZone) (pfn count : ℕ) : MemoryZone :=
  { zone with
    bitmap := (List.range count).foldl
      (fun bm j => bitmapSet bm (pfn + j - zone.basePfn)) zone.bitmap
    freePages := sub64 zone.freePages count }

/-- **The locked section of an allocation**: search one zone and mark
what was found. The `memset` of the block is left out; where it reaches no
bitmap (`Phys.Spares`), `Phys.alloc_view` adds nothing to this. -/
def lockedAlloc (r : Request) (z : ZoneIdx) (s : State) : Option (ℕ × State) :=
  match r.search (s.zones z) with
  | none => none
  | some pfn => some (pfn, s.setZone z ((s.zones z).mark pfn r.count))

/-- The zones in the order every allocator tries them. -/
def allocOrder : List ZoneIdx := [.normal, .dma32, .dma]

/-- The zone loop the allocators share; `0` is `NULL`. -/
def allocFrom (r : Request) : List ZoneIdx → State → State × ℕ
  | [], s => (s, 0)
  | z :: zs, s =>
    if r.skips (s.zones z).freePages then allocFrom r zs s
    else
      match lockedAlloc r z s with
      | some (pfn, s') => (s', physToVirt (pfn * pageSize))
      | none => allocFrom r zs s

/-- `pmm_alloc_page`. -/
def pmmAllocPage (s : State) : State × ℕ := allocFrom .page allocOrder s

/-- `pmm_alloc_pages`. -/
def pmmAllocPages (s : State) (count : ℕ) : State × ℕ :=
  if count = 0 then (s, 0)
  else if count = 1 then pmmAllocPage s
  else allocFrom (.pages count) allocOrder s

/-- `pmm_alloc_huge_page`. -/
def pmmAllocHugePage (s : State) : State × ℕ := allocFrom .huge allocOrder s

/-! ## Freeing -/

/-- What the free path prints. -/
inductive Report
  | doubleFree (addr : ℕ)
  | invalidAddress (addr : ℕ)
  deriving DecidableEq, Repr

/-- What one zone does with a frame that is being freed. -/
inductive FreeOutcome (σ : Type)
  | notHere
  | doubleFree
  | freed (s : σ)

/-- **The locked section of a free.** The frame is looked up in one zone;
a set bit is taken for a double free, and a clear one is cleared and
counted. -/
def lockedFree (z : ZoneIdx) (pfn : ℕ) (s : State) : FreeOutcome State :=
  let zone := s.zones z
  if zone.basePfn ≤ pfn ∧ pfn < zone.endPfn then
    let idx := pfn - zone.basePfn
    if idx ≥ zone.span then .notHere
    else if zone.used idx then .doubleFree
    else
      .freed (s.setZone z { zone with
        bitmap := bitmapClear zone.bitmap idx
        freePages := add64 zone.freePages 1 })
  else .notHere

/-- The zones in the order `pmm_free_page` tries them. -/
def freeOrder : List ZoneIdx := [.dma, .dma32, .normal]

/-- The zone loop of `pmm_free_page`. -/
def freeFrom (addr : ℕ) : List ZoneIdx → State → State × List Report
  | [], s => (s, [.invalidAddress addr])
  | z :: zs, s =>
    match lockedFree z (addr / pageSize) s with
    | .notHere => freeFrom addr zs s
    | .doubleFree => let (s', out) := freeFrom addr zs s; (s', .doubleFree addr :: out)
    | .freed s' => (s', [])

/-- `pmm_free_page`: the pointer's own page number is looked up. -/
def pmmFreePage (s : State) (addr : ℕ) : State × List Report :=
  if addr = 0 then (s, []) else freeFrom addr freeOrder s

/-- `pmm_free_pages`. -/
def pmmFreePages (s : State) (addr count : ℕ) : State :=
  if addr = 0 ∨ count = 0 then s
  else (List.range count).foldl
    (fun s i => (pmmFreePage s (add64 addr (mul64 i pageSize))).1) s

/-! ## Statistics -/

/-- `pmm_get_free`. -/
def pmmGetFree (s : State) : ℕ :=
  freeOrder.foldl (fun free z => add64 free (mul64 (s.zones z).freePages pageSize)) 0

/-- `pmm_get_stats`: total, used and free bytes. -/
def pmmGetStats (s : State) : ℕ × ℕ × ℕ :=
  let total := mul64 s.totalSystemPages pageSize
  let free := pmmGetFree s
  (total, sub64 total free, free)

end Pmm

end Kos
