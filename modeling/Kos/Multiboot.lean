import Kos.Common.Chain
import Kos.Kernel
import Kos.Pmm.Model
/-!
# Multiboot — the information block of the boot loader

The block is a row of tags, each with a type and a size and padded to
eight bytes, up to a tag of type END. `pmm_init` and `find_rsdp` walk it
in the same way. The memory map is a tag that says how large its entries
are; the code divides by that size to count them and then steps through
them with the size of its own structure.
-/

namespace Kos

namespace Multiboot

/-- `MULTIBOOT_TAG_TYPE_END`. -/
abbrev tagTypeEnd : ℕ := 0

/-- `MULTIBOOT_TAG_TYPE_MMAP`. -/
abbrev tagTypeMmap : ℕ := 6

/-- `MULTIBOOT_TAG_TYPE_ACPI_OLD`. -/
abbrev tagTypeAcpiOld : ℕ := 14

/-- `MULTIBOOT_TAG_TYPE_ACPI_NEW`. -/
abbrev tagTypeAcpiNew : ℕ := 15

/-! ## What the code reads -/

/-- `tag->type`. -/
def tagType (m : ByteMem) (ptr : ℕ) : ℕ := m.load ptr 4

/-- `tag->size`. -/
def tagSize (m : ByteMem) (ptr : ℕ) : ℕ := m.load (ptr + 4) 4

/-- `mmap->entry_size`. -/
def entrySize (m : ByteMem) (mmap : ℕ) : ℕ := m.load (mmap + 8) 4

/-- `(size + 7) & ~7`, in 32 bits. -/
def advance (size : ℕ) : ℕ := (size + 7) % 2 ^ 32 &&& 0xFFFFFFF8

/-- The walk over the tags to the first that is wanted. The result is
missing while the walk goes on, and `none` where it came to the end. -/
def findTag (m : ByteMem) (wanted : ℕ → Bool) : ℕ → ℕ → Option (Option ℕ)
  | 0, _ => none
  | rounds + 1, ptr =>
    if tagType m ptr = tagTypeEnd then some none
    else if wanted (tagType m ptr) then some (some ptr)
    else findTag m wanted rounds (add64 ptr (advance (tagSize m ptr)))

/-- `type == MULTIBOOT_TAG_TYPE_MMAP`. -/
def isMmap (type : ℕ) : Bool := type == tagTypeMmap

/-- `type == 14 || type == 15`. -/
def isAcpi (type : ℕ) : Bool := type == tagTypeAcpiOld || type == tagTypeAcpiNew

/-- The walk of `pmm_init`: the address of `mmap`. -/
def findMmap (m : ByteMem) (mbInfoPhys rounds : ℕ) : Option (Option ℕ) :=
  findTag m isMmap rounds (add64 (physToVirt mbInfoPhys) 8)

/-- `find_rsdp`: the address of the `rsdp` of a tag. -/
def findRsdp (m : ByteMem) (mbInfoPhys rounds : ℕ) : Option (Option ℕ) :=
  (findTag m isAcpi rounds (add64 (physToVirt mbInfoPhys) 8)).map (Option.map (· + 8))

/-- `num_entries`. -/
def numEntries (m : ByteMem) (mmap : ℕ) : ℕ := sub64 (tagSize m mmap) 16 / entrySize m mmap

/-- The addresses of `mmap->entries[i]` that a pass goes through. An entry
of the array has 24 bytes. -/
def entryPtrs (m : ByteMem) (mmap : ℕ) : List ℕ := slots (mmap + 16) 24 (numEntries m mmap)

/-- The entry at an address. -/
def entryAt (m : ByteMem) (ptr : ℕ) : Pmm.MmapEntry :=
  ⟨UInt64.ofNat (m.load ptr 8), UInt64.ofNat (m.load (ptr + 8) 8), UInt32.ofNat (m.load (ptr + 16) 4)⟩

/-- The passes of `pmm_init`. Between them bitmaps are written, so the
second reads the memory as it is then. -/
def pmmPasses (m m' : ByteMem) (mmap : ℕ) : Pmm.State :=
  let empty : Pmm.State := { zones := fun _ => Pmm.emptyZone, totalSystemPages := 0 }
  let s := ((entryPtrs m mmap).map (entryAt m)).foldl Pmm.addEntry empty
  Pmm.reserveKernel (((entryPtrs m mmap).map (entryAt m')).foldl Pmm.freeEntry (Pmm.fillBitmaps s))

/-! ## The format -/

/-- A tag: its type, and its size without padding. -/
structure Tag where
  type : ℕ
  size : ℕ
  deriving DecidableEq, Repr

/-- The bytes a tag takes, with padding. -/
def Tag.extent (t : Tag) : ℕ := 8 * ((t.size + 7) / 8)

/-- The bytes that tags take. -/
def extents (tags : List Tag) : ℕ := (tags.map Tag.extent).sum

/-- **Tags one after the other**, and a tag of type END behind them. -/
def TagsAt (m : ByteMem) : ℕ → List Tag → Prop
  | ptr, [] => tagType m ptr = tagTypeEnd ∧ tagSize m ptr = 8
  | ptr, t :: tags => (tagType m ptr = t.type ∧ tagSize m ptr = t.size) ∧
      (t.type ≠ tagTypeEnd ∧ 8 ≤ t.size) ∧ TagsAt m (ptr + t.extent) tags

instance TagsAt.decidable (m : ByteMem) : ∀ ptr tags, Decidable (TagsAt m ptr tags)
  | _, [] => instDecidableAnd
  | ptr, t :: tags =>
    have : Decidable (TagsAt m (ptr + t.extent) tags) := TagsAt.decidable m (ptr + t.extent) tags
    instDecidableAnd

/-- **A well-formed information block.** It starts with its total size,
which the tags fill. -/
structure InfoBlock (m : ByteMem) (base : ℕ) (tags : List Tag) : Prop where
  aligned : 8 ∣ base
  total : m.load base 4 = 8 + extents tags + 8
  fits : base + m.load base 4 ≤ 2 ^ 64
  tags : TagsAt m (base + 8) tags

/-- The address of the first tag that is wanted. -/
def firstTag (wanted : ℕ → Bool) : ℕ → List Tag → Option ℕ
  | _, [] => none
  | ptr, t :: tags => if wanted t.type then some ptr else firstTag wanted (ptr + t.extent) tags

/-- **A memory map of `n` entries** of a size that the format allows. -/
structure MmapTag (m : ByteMem) (mmap n size : ℕ) : Prop where
  length : tagSize m mmap = 16 + n * size
  entrySize : entrySize m mmap = size
  large : 24 ≤ size
  multiple : 8 ∣ size

/-- **The block is read as it is meant**: the walks end, at the first map
and at the first ACPI tag or nowhere, and the passes go through the
entries of the map. -/
structure ReadsBlock (m : ByteMem) (mbInfoPhys : ℕ) (tags : List Tag) (mmap n size : ℕ) :
    Prop where
  findsMmap : ∃ k, ∀ rounds ≥ k, findMmap m mbInfoPhys rounds = some (some mmap)
  findsRsdp : ∃ k, ∀ rounds ≥ k, findRsdp m mbInfoPhys rounds =
    some ((firstTag isAcpi (physToVirt mbInfoPhys + 8) tags).map (· + 8))
  visits : entryPtrs m mmap = slots (mmap + 16) size n

variable {m : ByteMem} {base mbInfoPhys ptr mmap n size rounds : ℕ} {tags : List Tag} {t : Tag}
  {wanted : ℕ → Bool}

/-! ## The walk -/

/-- The mask rounds a size up. -/
theorem advance_eq (h : 8 * ((size + 7) / 8) < 2 ^ 32) : advance size = 8 * ((size + 7) / 8) := by
  have hlt : size + 7 < 2 ^ 32 := by omega
  have hmask : 0xFFFFFFF8 = highMask 3 &&& (2 ^ 32 - 1) := by decide
  rw [advance, Nat.mod_eq_of_lt hlt, hmask, ← Nat.land_assoc,
    land_highMask (hlt.trans (by decide)) (by decide), Nat.and_two_pow_sub_one_eq_mod]
  exact Nat.mod_eq_of_lt h

/-- **The walk finds the first tag that is wanted**, in one round for each
tag and one for the end. -/
theorem findTag_eq (h : TagsAt m ptr tags) (hsize : extents tags < 2 ^ 32)
    (hfits : ptr + extents tags < 2 ^ 64) (hrounds : tags.length < rounds) :
    findTag m wanted rounds ptr = some (firstTag wanted ptr tags) := by
  induction tags generalizing ptr rounds with
  | nil =>
    obtain ⟨rounds, rfl⟩ : ∃ k, rounds = k + 1 := ⟨rounds - 1, by rw [List.length_nil] at hrounds; omega⟩
    rw [findTag, if_pos h.1, firstTag]
  | cons t tags ih =>
    obtain ⟨⟨htype, htagSize⟩, ⟨hend, -⟩, hrest⟩ := h
    have hcons : extents (t :: tags) = t.extent + extents tags := by
      rw [extents, List.map_cons, List.sum_cons, extents]
    rw [hcons] at hsize hfits
    rw [List.length_cons] at hrounds
    obtain ⟨rounds, rfl⟩ : ∃ k, rounds = k + 1 := ⟨rounds - 1, by omega⟩
    have hnext : add64 ptr (advance (tagSize m ptr)) = ptr + t.extent := by
      rw [htagSize, advance_eq (by rw [Tag.extent] at hsize; omega)]
      exact add64_of_lt (by rw [Tag.extent] at hfits; omega)
    rw [findTag, htype, if_neg hend, firstTag]
    split
    · rfl
    · rw [hnext]
      exact ih hrest (by omega) (by omega) (by omega)

theorem InfoBlock.findTag (h : InfoBlock m (physToVirt mbInfoPhys) tags)
    (hrounds : tags.length < rounds) :
    Multiboot.findTag m wanted rounds (add64 (physToVirt mbInfoPhys) 8) =
      some (firstTag wanted (physToVirt mbInfoPhys + 8) tags) := by
  have htotal := h.total
  have hfits := h.fits
  have hlt : m.load (physToVirt mbInfoPhys) 4 < 2 ^ 32 := m.load_lt _ 4
  rw [add64_of_lt (by omega)]
  exact findTag_eq h.tags (by omega) (by omega) hrounds

/-! ## The entries -/

theorem MmapTag.numEntries (h : MmapTag m mmap n size) : numEntries m mmap = n := by
  have hlt : tagSize m mmap < 2 ^ 32 := m.load_lt _ 4
  have hlarge := h.large
  rw [Multiboot.numEntries, h.entrySize, h.length] at *
  rw [sub64_of_le (by omega) (by omega), Nat.add_sub_cancel_left]
  exact Nat.mul_div_cancel n (by omega)

/-- **The entries that the passes go through are those encoded** exactly
if these have the size of the structure, or there is at most one. -/
theorem MmapTag.entryPtrs_eq_iff (h : MmapTag m mmap n size) :
    entryPtrs m mmap = slots (mmap + 16) size n ↔ size = 24 ∨ n ≤ 1 := by
  rw [entryPtrs, h.numEntries, slots_eq_iff, eq_comm]

/-- **The state `pmm_init` builds** is that of the entries encoded, where
it goes through them and they stay as they are between the passes. -/
theorem pmmPasses_eq {m' : ByteMem} (htag : MmapTag m mmap n size) (hsize : size = 24 ∨ n ≤ 1)
    (hkeep : ∀ ptr ∈ slots (mmap + 16) size n, entryAt m' ptr = entryAt m ptr) :
    pmmPasses m m' mmap = Pmm.pmmInit ((slots (mmap + 16) size n).map (entryAt m)) := by
  have hsame : (slots (mmap + 16) size n).map (entryAt m') =
      (slots (mmap + 16) size n).map (entryAt m) := List.map_congr_left hkeep
  rw [pmmPasses, htag.entryPtrs_eq_iff.2 hsize, hsame]
  rfl

/-- **When the block is read as it is meant**: the entries have the size
of the structure of the code, or there is at most one. -/
theorem readsBlock_iff (hblock : InfoBlock m (physToVirt mbInfoPhys) tags)
    (hmmap : firstTag isMmap (physToVirt mbInfoPhys + 8) tags = some mmap)
    (htag : MmapTag m mmap n size) :
    ReadsBlock m mbInfoPhys tags mmap n size ↔ size = 24 ∨ n ≤ 1 := by
  rw [← htag.entryPtrs_eq_iff]
  refine ⟨fun h => h.visits, fun h => ⟨⟨tags.length + 1, fun rounds hr => ?_⟩,
    ⟨tags.length + 1, fun rounds hr => ?_⟩, h⟩⟩
  · rw [findMmap, hblock.findTag hr, hmmap]
  · rw [findRsdp, hblock.findTag hr, Option.map_some]

/-- A block in memory, given by its 32-bit words. -/
def infoWords (base : ℕ) (words : List ℕ) : ByteMem := fun a =>
  UInt8.ofNat (words.getD ((a - base) / 4) 0 / 256 ^ ((a - base) % 4))

/-- Two entries of the size of the structure, between two ACPI tags: from
them `pmm_init` builds its state, whatever else is written in between. -/
theorem readsBlock_iff_plain :
    let m := infoWords (physToVirt 0x10000)
      [128, 0, 14, 20, 0, 0, 0, 0, 6, 64, 24, 0, 0x100000, 0, 0x100000, 0, 1, 0,
        0x1000000, 0, 0x100000, 0, 1, 0, 15, 12, 0, 0, 1, 8, 0, 8]
    let tags : List Tag := [⟨14, 20⟩, ⟨6, 64⟩, ⟨15, 12⟩, ⟨1, 8⟩]
    let mmap := physToVirt 0x10000 + 32
    InfoBlock m (physToVirt 0x10000) tags ∧ MmapTag m mmap 2 24 ∧
      ReadsBlock m 0x10000 tags mmap 2 24 ∧
      ∀ m', (∀ ptr ∈ slots (mmap + 16) 24 2, entryAt m' ptr = entryAt m ptr) →
        pmmPasses m m' mmap =
          Pmm.pmmInit [⟨0x100000, 0x100000, 1⟩, ⟨0x1000000, 0x100000, 1⟩] := by
  intro m tags mmap
  have hblock : InfoBlock m (physToVirt 0x10000) tags :=
    ⟨by decide, by decide, by decide, by decide⟩
  have htag : MmapTag m mmap 2 24 := ⟨by decide, by decide, by decide, by decide⟩
  have hentries : (slots (mmap + 16) 24 2).map (entryAt m) =
      [⟨0x100000, 0x100000, 1⟩, ⟨0x1000000, 0x100000, 1⟩] := by decide
  refine ⟨hblock, htag, (readsBlock_iff hblock (by decide) htag).2 (Or.inl rfl), fun m' hkeep => ?_⟩
  rw [pmmPasses_eq htag (Or.inl rfl) hkeep, hentries]

/-- Two entries of 32 bytes: the second is looked for in the first. -/
theorem not_readsBlock_wide :
    let m := infoWords (physToVirt 0x10000)
      [96, 0, 6, 80, 32, 0, 0x100000, 0, 0x100000, 0, 1, 0, 0, 0,
        0x1000000, 0, 0x100000, 0, 1, 0, 0, 0, 0, 8]
    let mmap := physToVirt 0x10000 + 8
    InfoBlock m (physToVirt 0x10000) [⟨6, 80⟩] ∧
      firstTag isMmap (physToVirt 0x10000 + 8) [⟨6, 80⟩] = some mmap ∧ MmapTag m mmap 2 32 ∧
      ¬ ReadsBlock m 0x10000 [⟨6, 80⟩] mmap 2 32 := by
  refine ⟨⟨by decide, by decide, by decide, by decide⟩, by decide,
    ⟨by decide, by decide, by decide, by decide⟩, fun h => ?_⟩
  exact absurd h.visits (by decide)

end Multiboot

end Kos
