import Kos.Pmm.Init
import Kos.Common.ByteMem
/-!
# Pmm — the memory manager over one physical memory

Here a bitmap is a pointer, and the bitmaps, the early allocator's
tracker and the pages handed out all lie in one byte array: marking a
bit is a read and a write of a word of it, and an allocation zeroes the
pages it returns. The boot code maps physical memory at its own address
and in the higher half, so both kinds of pointer address this array. The
statics of `memory.c`, the kernel image and the memory map are taken as
storage of their own. A panic is `none`.
-/

namespace Kos

/-! ## Bitmaps in memory -/

/-- The words of a bitmap at an address. -/
def bitmapAt (mem : ByteMem) (bm : ℕ) : Bitmap :=
  fun w => BitVec.ofNat 64 (mem.load (bm + 8 * w) 8)

/-- `bitmap_set`, on the words at `bm`. -/
def memBitmapSet (mem : ByteMem) (bm bit : ℕ) : ByteMem :=
  mem.store (bm + 8 * (bit / 64)) 8 (bitmapSet (bitmapAt mem bm) bit (bit / 64)).toNat

/-- `bitmap_clear`, on the words at `bm`. -/
def memBitmapClear (mem : ByteMem) (bm bit : ℕ) : ByteMem :=
  mem.store (bm + 8 * (bit / 64)) 8 (bitmapClear (bitmapAt mem bm) bit (bit / 64)).toNat

/-- **A bitmap is the row of bits at its address.** -/
theorem bitmapTest_at (mem : ByteMem) (bm i : ℕ) :
    bitmapTest (bitmapAt mem bm) i = mem.bit (8 * bm + i) := by
  have hlt : i % 64 < 64 := Nat.mod_lt _ (by decide)
  have hidx : 8 * (bm + 8 * (i / 64)) + i % 64 = 8 * bm + i := by omega
  rw [bitmapTest_eq, bitmapAt, BitVec.getLsbD_ofNat, ByteMem.testBit_load, hidx]
  simp [hlt]

/-- Storing the word of another bitmap replaces the bits of that word. -/
theorem bit_store_word (mem : ByteMem) (bm w : ℕ) (words : Bitmap) (k : ℕ) :
    (mem.store (bm + 8 * w) 8 (words w).toNat).bit k =
      if 8 * bm ≤ k ∧ (k - 8 * bm) / 64 = w then bitmapTest words (k - 8 * bm)
      else mem.bit k := by
  rw [ByteMem.bit_store]
  by_cases h : 8 * bm ≤ k ∧ (k - 8 * bm) / 64 = w
  · obtain ⟨hle, rfl⟩ := h
    have hoff : k - 8 * (bm + 8 * ((k - 8 * bm) / 64)) = (k - 8 * bm) % 64 := by omega
    rw [if_pos (by omega), if_pos ⟨hle, rfl⟩, hoff, bitmapTest_eq, BitVec.testBit_toNat]
  · rw [if_neg h, if_neg (by omega)]

/-- **Setting a bit of a bitmap sets that bit of memory and no other.** -/
theorem bit_memBitmapSet (mem : ByteMem) (bm i k : ℕ) :
    (memBitmapSet mem bm i).bit k = (decide (k = 8 * bm + i) || mem.bit k) := by
  rw [memBitmapSet, bit_store_word]
  split
  · rename_i h
    have hk : 8 * bm + (k - 8 * bm) = k := by omega
    rw [bitmapTest_set, bitmapTest_at, hk]
    congr 1
    exact decide_eq_decide.2 (by omega)
  · rename_i h
    have hne : k ≠ 8 * bm + i := by
      rintro rfl
      exact h ⟨by omega, by rw [Nat.add_sub_cancel_left]⟩
    rw [decide_eq_false hne, Bool.false_or]

/-- **Clearing a bit of a bitmap clears that bit of memory and no other.** -/
theorem bit_memBitmapClear (mem : ByteMem) (bm i k : ℕ) :
    (memBitmapClear mem bm i).bit k = (mem.bit k && !decide (k = 8 * bm + i)) := by
  rw [memBitmapClear, bit_store_word]
  split
  · rename_i h
    have hk : 8 * bm + (k - 8 * bm) = k := by omega
    rw [bitmapTest_clear, bitmapTest_at, hk]
    congr 2
    exact decide_eq_decide.2 (by omega)
  · rename_i h
    have hne : k ≠ 8 * bm + i := by
      rintro rfl
      exact h ⟨by omega, by rw [Nat.add_sub_cancel_left]⟩
    rw [decide_eq_false hne, Bool.not_false, Bool.and_true]

/-- Clearing a bit that is clear changes no byte. -/
theorem memBitmapClear_of_clear {mem : ByteMem} {bm i : ℕ}
    (h : bitmapTest (bitmapAt mem bm) i = false) : memBitmapClear mem bm i = mem := by
  refine ByteMem.ext_bit fun k => ?_
  rw [bitmapTest_at] at h
  rw [bit_memBitmapClear]
  by_cases hk : k = 8 * bm + i
  · rw [hk, h, Bool.false_and]
  · rw [decide_eq_false hk, Bool.not_false, Bool.and_true]

namespace Pmm

/-! ## The state -/

/-- `struct memory_zone`, with the bitmap a pointer; `0` is `NULL`. -/
structure PhysZone where
  basePfn : ℕ
  endPfn : ℕ
  totalPages : ℕ
  freePages : ℕ
  bitmap : ℕ

/-- The statics of `memory.c` and physical memory. -/
structure Phys where
  zones : ZoneIdx → PhysZone
  totalSystemPages : ℕ
  earlyAllocPages : ℕ
  earlyBitmap : ℕ
  mem : ByteMem

/-- The number of frames a zone's bitmap has a bit for. -/
def PhysZone.span (zone : PhysZone) : ℕ := zone.endPfn - zone.basePfn

/-- The zone as its loops see it, the bitmap read out of memory. -/
def PhysZone.view (zone : PhysZone) (mem : ByteMem) : MemoryZone where
  basePfn := zone.basePfn
  endPfn := zone.endPfn
  totalPages := zone.totalPages
  freePages := zone.freePages
  bitmap := bitmapAt mem zone.bitmap

/-- Replace one zone. -/
def Phys.setZone (s : Phys) (z : ZoneIdx) (zone : PhysZone) : Phys :=
  { s with zones := Function.update s.zones z zone }

@[simp] theorem Phys.setZone_self (s : Phys) (z : ZoneIdx) (zone : PhysZone) :
    (s.setZone z zone).zones z = zone := Function.update_self ..

theorem Phys.setZone_of_ne {s : Phys} {z w : ZoneIdx} {zone : PhysZone} (h : w ≠ z) :
    (s.setZone z zone).zones w = s.zones w := Function.update_of_ne h ..

/-! ## The early allocator -/

/-- `early_bitmap[i / 8] & (1 << (i % 8))`. -/
def earlyTest (mem : ByteMem) (earlyBitmap i : ℕ) : Bool :=
  mem (earlyBitmap + i / 8) &&& UInt8.ofNat (1 <<< (i % 8)) != 0

/-- `early_bitmap[i / 8] |= 1 << (i % 8)`. -/
def earlySet (mem : ByteMem) (earlyBitmap i : ℕ) : ByteMem :=
  Function.update mem (earlyBitmap + i / 8)
    (mem (earlyBitmap + i / 8) ||| UInt8.ofNat (1 <<< (i % 8)))

/-- Are the `pages` tracked pages from `i` on all unused? -/
def earlyFound (mem : ByteMem) (earlyBitmap pages i : ℕ) : Bool :=
  (List.range pages).all fun j => !earlyTest mem earlyBitmap (i + j)

/-- The outer loop, with `n` candidates left from `i` on. -/
def earlySearch (mem : ByteMem) (earlyBitmap pages : ℕ) : ℕ → ℕ → Option ℕ
  | 0, _ => none
  | n + 1, i =>
    if earlyFound mem earlyBitmap pages i then some i
    else earlySearch mem earlyBitmap pages n (i + 1)

/-- The first call places the tracker at 1 MB and zeroes it. -/
def Phys.earlyStart (s : Phys) : Phys :=
  if s.earlyBitmap = 0 then
    { s with earlyBitmap := 0x100000, mem := s.mem.fill 0x100000 32768 0 }
  else s

/-- `pmm_early_alloc`. -/
def pmmEarlyAlloc (s : Phys) (pages : ℕ) : Option (Phys × ℕ) :=
  let s := s.earlyStart
  match earlySearch s.mem s.earlyBitmap pages 65536 0 with
  | none => none
  | some i =>
    some ({ s with
      mem := (List.range pages).foldl (fun mem j => earlySet mem s.earlyBitmap (i + j)) s.mem
      earlyAllocPages := add64 s.earlyAllocPages pages }, (i + 0x100) * pageSize)

/-! ## Initialisation -/

/-- The statics after the first pass, every bitmap `NULL`. -/
def Phys.ofMap (mem : ByteMem) (s : State) : Phys where
  zones := fun z =>
    { basePfn := (s.zones z).basePfn
      endPfn := (s.zones z).endPfn
      totalPages := (s.zones z).totalPages
      freePages := (s.zones z).freePages
      bitmap := 0 }
  totalSystemPages := s.totalSystemPages
  earlyAllocPages := 0
  earlyBitmap := 0
  mem := mem

/-- `bitmap_size`: whole words for a zone's frames, in bytes. -/
def bitmapSize (span : ℕ) : ℕ := (span + 63) / 64 * 8

/-- The pages a bitmap takes. -/
def bitmapPages (size : ℕ) : ℕ := (size + pageSize - 1) / pageSize

/-- One zone of the bitmap phase. -/
def placeBitmap (s : Phys) (z : ZoneIdx) : Option Phys :=
  let zone := s.zones z
  if zone.totalPages = 0 then some s
  else
    let size := bitmapSize zone.span
    match pmmEarlyAlloc s (bitmapPages size) with
    | none => none
    | some (s, ptr) =>
      some { s.setZone z { zone with bitmap := ptr } with mem := s.mem.fill ptr size 0xFF }

/-- The bitmap phase over a list of zones. -/
def placeBitmaps : List ZoneIdx → Phys → Option Phys
  | [], s => some s
  | z :: zs, s =>
    match placeBitmap s z with
    | none => none
    | some s => placeBitmaps zs s

/-- One page of the second pass. -/
def Phys.freeEntryPage (z : ZoneIdx) (s : Phys) (addr : ℕ) : Phys :=
  let zone := s.zones z
  let pfn := addr / pageSize
  if zone.totalPages = 0 then s
  else if pfn < zone.basePfn ∨ pfn ≥ zone.endPfn then s
  else
    { s.setZone z { zone with freePages := add64 zone.freePages 1 } with
      mem := memBitmapClear s.mem zone.bitmap (pfn - zone.basePfn) }

/-- One entry of the second pass. -/
def Phys.freeEntry (s : Phys) (e : MmapEntry) : Phys :=
  if !e.available then s
  else (pageAddrs (clipLow e.start) e.stop).foldl (Phys.freeEntryPage (zoneIdxOf e.stop)) s

/-- One frame of the reservation loop. -/
def Phys.reservePage (s : Phys) (pfn : ℕ) : Phys :=
  let zone := s.zones .normal
  if pfn ≥ zone.basePfn then
    { s.setZone .normal { zone with
        freePages := if zone.freePages > 0 then sub64 zone.freePages 1 else zone.freePages } with
      mem := memBitmapSet s.mem zone.bitmap (pfn - zone.basePfn) }
  else s

/-- The reservation of the first 16 MB. -/
def Phys.reserveKernel (s : Phys) : Phys :=
  (List.range (min 0x1000 (s.zones .normal).endPfn)).foldl Phys.reservePage s

/-- `pmm_init` on a physical memory. -/
def physInit (mem : ByteMem) (mmap : List MmapEntry) : Option Phys :=
  (placeBitmaps freeOrder (Phys.ofMap mem (mmap.foldl addEntry emptyState))).map fun s =>
    (mmap.foldl Phys.freeEntry s).reserveKernel

/-! ## Allocation -/

/-- The locked section of an allocation and the zeroing of what it found. -/
def Phys.lockedAlloc (r : Request) (z : ZoneIdx) (s : Phys) : Option (ℕ × Phys) :=
  let zone := s.zones z
  match r.search (zone.view s.mem) with
  | none => none
  | some pfn =>
    let marked := (List.range r.count).foldl
      (fun mem j => memBitmapSet mem zone.bitmap (pfn + j - zone.basePfn)) s.mem
    some (pfn, { s.setZone z { zone with freePages := sub64 zone.freePages r.count } with
      mem := marked.fill (pfn * pageSize) (r.count * pageSize) 0 })

/-- The zone loop the allocators share; `0` is `NULL`. -/
def Phys.allocFrom (r : Request) : List ZoneIdx → Phys → Phys × ℕ
  | [], s => (s, 0)
  | z :: zs, s =>
    if r.skips (s.zones z).freePages then Phys.allocFrom r zs s
    else
      match s.lockedAlloc r z with
      | some (pfn, s') => (s', physToVirt (pfn * pageSize))
      | none => Phys.allocFrom r zs s

/-- `pmm_alloc_page`, `pmm_alloc_pages` and `pmm_alloc_huge_page`. -/
def Phys.alloc (s : Phys) : Request → Phys × ℕ
  | .page => s.allocFrom .page allocOrder
  | .pages count =>
    if count = 0 then (s, 0)
    else if count = 1 then s.allocFrom .page allocOrder
    else s.allocFrom (.pages count) allocOrder
  | .huge => s.allocFrom .huge allocOrder

/-! ## Freeing -/

/-- The locked section of a free. -/
def Phys.lockedFree (z : ZoneIdx) (pfn : ℕ) (s : Phys) : FreeOutcome Phys :=
  let zone := s.zones z
  if zone.basePfn ≤ pfn ∧ pfn < zone.endPfn then
    let idx := pfn - zone.basePfn
    if idx ≥ zone.span then .notHere
    else if bitmapTest (bitmapAt s.mem zone.bitmap) idx then .doubleFree
    else
      .freed { s.setZone z { zone with freePages := add64 zone.freePages 1 } with
        mem := memBitmapClear s.mem zone.bitmap idx }
  else .notHere

/-- The zone loop of `pmm_free_page`. -/
def Phys.freeFrom (addr : ℕ) : List ZoneIdx → Phys → Phys × List Report
  | [], s => (s, [.invalidAddress addr])
  | z :: zs, s =>
    match s.lockedFree z (addr / pageSize) with
    | .notHere => Phys.freeFrom addr zs s
    | .doubleFree => let (s', out) := Phys.freeFrom addr zs s; (s', .doubleFree addr :: out)
    | .freed s' => (s', [])

/-- `pmm_free_page`. -/
def Phys.freePage (s : Phys) (addr : ℕ) : Phys × List Report :=
  if addr = 0 then (s, []) else s.freeFrom addr freeOrder

/-- `pmm_free_pages`. -/
def Phys.freePages (s : Phys) (addr count : ℕ) : Phys :=
  if addr = 0 ∨ count = 0 then s
  else (List.range count).foldl
    (fun s i => (s.freePage (add64 addr (mul64 i pageSize))).1) s

end Pmm

end Kos
