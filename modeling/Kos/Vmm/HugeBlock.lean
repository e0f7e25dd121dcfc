import Kos.Pmm.FirstFit
import Kos.Vmm.Leaves
/-!
# Vmm — a huge page for what `pmm_alloc_huge_page` returns

The search for 512 free frames goes over a zone in strides of 512 from
the zone's first frame. Where that frame is no multiple of 512, neither
is any block it finds, and `vmm_map_huge_page`, which drops the low bits
of the address, maps other memory than was allocated.
-/

namespace Kos

namespace Pmm

variable {s : State} {z : ZoneIdx} {zone : MemoryZone} {pfn : ℕ}

/-- **A zone the search for a huge page ends in**: the counter passes the
gate, and 512 frames at a stride from the first are free. -/
def MemoryZone.HasHugeBlock (zone : MemoryZone) : Prop :=
  512 ≤ zone.freePages ∧ ∃ k, zone.FreeRun (zone.basePfn + 512 * k) 512

/-- The first zone of that kind, the zones from the highest down. -/
structure HugeZone (s : State) (z : ZoneIdx) : Prop where
  block : (s.zones z).HasHugeBlock
  first : ∀ w, z.rank < w.rank → ¬ (s.zones w).HasHugeBlock

/-- The search ends at a stride from the first frame. -/
theorem findHuge_stride (h : findHuge zone = some pfn) : ∃ k, pfn = zone.basePfn + 512 * k := by
  have hmem := List.mem_of_find?_eq_some h
  simp only [List.mem_map, List.mem_range] at hmem
  obtain ⟨k, -, hk⟩ := hmem
  exact ⟨k, hk.symm⟩

/-- **The search finds a block where there is one.** -/
theorem findHuge_isSome {k : ℕ} (h : zone.FreeRun (zone.basePfn + 512 * k) 512) :
    ∃ pfn, findHuge zone = some pfn := by
  have hend := h.le_end
  have hfree : hugeFree zone (zone.basePfn + 512 * k) = true := by
    rw [hugeFree, List.all_eq_true]
    intro i hi
    rw [List.mem_range] at hi
    have hclear := h.clear (zone.basePfn + 512 * k + i) (by omega) (by omega)
    rw [hclear, Bool.not_false, Bool.and_true, decide_eq_true_iff, MemoryZone.span]
    omega
  have hmem : zone.basePfn + 512 * k ∈
      (List.range (zone.span / 512)).map fun i => zone.basePfn + 512 * i := by
    refine List.mem_map.2 ⟨k, List.mem_range.2 ?_, rfl⟩
    rw [MemoryZone.span]
    omega
  rw [← Option.isSome_iff_exists, findHuge, List.find?_isSome]
  exact ⟨_, hmem, hfree⟩

theorem finds_huge_iff : (∃ pfn, Request.huge.Finds zone pfn) ↔ zone.HasHugeBlock := by
  constructor
  · rintro ⟨pfn, hgate, hfind⟩
    obtain ⟨k, rfl⟩ := findHuge_stride hfind
    rw [Request.skips, decide_eq_false_iff_not] at hgate
    exact ⟨by omega, k, findHuge_freeRun hfind⟩
  · rintro ⟨hgate, k, hrun⟩
    obtain ⟨pfn, hfind⟩ := findHuge_isSome hrun
    refine ⟨pfn, ?_, hfind⟩
    rw [Request.skips, decide_eq_false_iff_not]
    omega

/-- **What `pmm_alloc_huge_page` returns**: a block at a stride from the
first frame of the zone, or `NULL` where no zone has one. -/
theorem pmmAllocHugePage_cases (s : State) :
    (∃ z k, HugeZone s z ∧ (s.zones z).FreeRun ((s.zones z).basePfn + 512 * k) 512 ∧
      (pmmAllocHugePage s).2 = physToVirt (((s.zones z).basePfn + 512 * k) * pageSize)) ∨
    ((∀ z, ¬ HugeZone s z) ∧ (pmmAllocHugePage s).2 = 0) := by
  rw [pmmAllocHugePage]
  rcases allocFrom_chooses .huge s with ⟨z, pfn, hchoice, hres⟩ | ⟨hnone, hres⟩
  · obtain ⟨k, rfl⟩ := findHuge_stride hchoice.finds.2
    refine Or.inl ⟨z, k, ⟨finds_huge_iff.1 ⟨_, hchoice.finds⟩, fun w hw hblock => ?_⟩,
      findHuge_freeRun hchoice.finds.2, by rw [hres]⟩
    obtain ⟨q, hq⟩ := finds_huge_iff.2 hblock
    exact hchoice.first w hw q hq
  · refine Or.inr ⟨fun z hz => ?_, by rw [hres]⟩
    obtain ⟨q, hq⟩ := finds_huge_iff.2 hz.block
    exact hnone z q hq

/-- There is one zone the search ends in. -/
theorem HugeZone.unique {w : ZoneIdx} (h : HugeZone s z) (h' : HugeZone s w) : z = w := by
  rcases Nat.lt_trichotomy z.rank w.rank with hlt | heq | hlt
  · exact absurd h'.block (h.first w hlt)
  · exact ZoneIdx.rank_inj heq
  · exact absurd h.block (h'.first z hlt)

end Pmm

namespace Vmm

open Radix Pmm

/-- The physical address of a frame, through the direct map and back. -/
theorem virtToPhys_frame (f : ℕ) : virtToPhys (physToVirt (f * pageSize)) = f * pageSize % 2 ^ 64 := by
  simp only [virtToPhys, physToVirt, sub64, add64]
  omega

/-- **A frame is 2 MB aligned exactly at a multiple of 512.** -/
theorem frame_aligned_iff (f : ℕ) :
    virtToPhys (physToVirt (f * pageSize)) % hugePageSize = 0 ↔ f % 512 = 0 := by
  rw [virtToPhys_frame]
  simp only [pageSize, hugePageSize]
  omega

/-- **A pointer is good for a huge page**: its physical address is 2 MB
aligned, and a region mapped to it is mapped to the 512 frames from it
on, in every hierarchy in which the upper tables are there or can be had. -/
def GoodHugePage (p : ℕ) : Prop :=
  virtToPhys p % hugePageSize = 0 ∧
    ∀ (m : Mm) (root e virt : ℕ), Wf m.tables root → Fresh m root → root ∉ m.pmm →
      pml4Index virt ≠ recursiveIndex →
      (vmmMapHugePage (m.put root recursiveIndex e) root virt (virtToPhys p) ptPresent).1 = true →
      ∀ a, regionOf a = regionOf virt →
        vmmGetPhys (vmmMapHugePage (m.put root recursiveIndex e) root virt (virtToPhys p)
          ptPresent).2.tables root a = virtToPhys p + a % hugePageSize

/-- The entry of a huge page that is only present. -/
theorem leafRegion_present {phys : ℕ} (hp : phys < 2 ^ 64) (hal : phys % hugePageSize = 0) :
    leafRegion ((phys &&& hugeMask) ||| ptPresent ||| ptHuge) = .huge phys := by
  have hround : phys &&& hugeMask = 2 ^ 21 * (phys / 2097152) := land_highMask hp (by decide)
  have hphys : 2 ^ 21 * (phys / 2097152) = phys := by
    simp only [hugePageSize] at hal
    omega
  have hlow : ptPresent ||| ptHuge < 2 ^ 21 := by decide
  rw [Nat.or_assoc, hround, two_pow_mul_lor hlow, hphys, leafRegion,
    isPresent_add (by simp only [hugePageSize] at hal; omega), if_pos (by decide)]
  congr 1
  simp only [roundTo, hugePageSize, ptPresent, ptHuge] at *
  omega

theorem goodHugePage_of_aligned {p : ℕ} (h : virtToPhys p % hugePageSize = 0) : GoodHugePage p := by
  have hlt : virtToPhys p < 2 ^ 64 := sub64_lt _ _
  refine ⟨h, fun m root e virt hwf hfresh hroot hslot hok a ha => ?_⟩
  rw [vmmGetPhys_mapped_huge hwf hfresh hroot hslot (hugeEntry_lt _ (by decide)) hok ha,
    leafRegion_present hlt h, Region.translate]

/-- **A huge page is aligned exactly where the zone it comes from is.** -/
theorem pmmAllocHugePage_good_iff (s : Pmm.State) :
    ((pmmAllocHugePage s).2 ≠ 0 → GoodHugePage (pmmAllocHugePage s).2) ↔
      ∀ z, HugeZone s z → (s.zones z).basePfn % 512 = 0 := by
  rcases pmmAllocHugePage_cases s with ⟨z, k, hz, -, hp⟩ | ⟨hnone, hp⟩
  · have hiff := frame_aligned_iff ((s.zones z).basePfn + 512 * k)
    rw [hp]
    constructor
    · intro hgood w hw
      obtain rfl := hz.unique hw
      -- the address that is taken for `NULL` is a multiple of 2 MB as well
      have haligned : ((s.zones z).basePfn + 512 * k) % 512 = 0 := by
        by_cases hnull : physToVirt (((s.zones z).basePfn + 512 * k) * pageSize) = 0
        · rw [← hiff, hnull]
          decide
        · exact hiff.1 (hgood hnull).1
      omega
    · intro hbase _
      exact goodHugePage_of_aligned (hiff.2 (by have := hbase z hz; omega))
  · rw [hp]
    exact ⟨fun _ z hz => absurd hz (hnone z), fun _ hne => absurd rfl hne⟩

/-- Three megabytes of memory from 1 MB on. -/
def megabyteMap : List MmapEntry := [⟨0x100000, 0x300000, 1⟩]

theorem megabyteMap_ok : MapOk megabyteMap where
  disjoint := List.pairwise_singleton _ _
  below := by decide

/-- `ZONE_DMA` is the 768 frames from `0x100` on, all of them free. -/
theorem megabyteMap_dma : ((pmmInit megabyteMap).zones .dma).basePfn = 0x100 ∧
    ((pmmInit megabyteMap).zones .dma).endPfn = 0x400 ∧
    ((pmmInit megabyteMap).zones .dma).FreeRun 0x100 512 := by
  have hspec := megabyteMap_ok.initSpec
  -- the one entry claims its 768 frames for `ZONE_DMA`, and they bound the zone
  have hclaim : ∀ f, 0x100 ≤ f → f < 0x400 → (ZoneIdx.dma, f) ∈ claimed megabyteMap := by
    intro f h1 h2
    refine mem_claimed.2 ⟨_, List.mem_cons_self, rfl, rfl, ?_, ?_⟩
    · rw [show MmapEntry.lo ⟨0x100000, 0x300000, 1⟩ = 0x100 by decide]
      exact h1
    · rw [show MmapEntry.hi ⟨0x100000, 0x300000, 1⟩ = 0x400 by decide]
      exact h2
  obtain ⟨hlow, hend⟩ := hspec.covers .dma 0x3FF (hclaim 0x3FF (by decide) (by decide))
  have hbase : ((pmmInit megabyteMap).zones .dma).basePfn = 0x100 := by
    rcases megabyteMap_ok.basePfn_from .dma with hb | ⟨e, he, -, -, hb⟩
    · omega
    · rw [← hb, List.mem_singleton.1 he]
      decide
  have hstop : ((pmmInit megabyteMap).zones .dma).endPfn = 0x400 := by
    rcases megabyteMap_ok.endPfn_from .dma with hb | ⟨e, he, -, -, hb⟩
    · omega
    · rw [← hb, List.mem_singleton.1 he]
      decide
  refine ⟨hbase, hstop, by omega, by omega, fun f h1 h2 => ?_⟩
  refine (hspec.used_iff ⟨by omega, by omega⟩).2 ⟨⟨.dma, hclaim f h1 (by omega)⟩, ?_⟩
  exact fun hc => absurd hc.1 (by decide)

/-- **A huge page at 1 MB.** On a machine with memory from 1 MB on, the
first call returns the frames from there, and a region mapped to them is
mapped to the memory from 0 on. -/
theorem pmmAllocHugePage_at_one_megabyte : MapOk megabyteMap ∧
    (pmmAllocHugePage (pmmInit megabyteMap)).2 = 0xFFFF800000100000 ∧
    virtToPhys 0xFFFF800000100000 % hugePageSize = 0x100000 ∧
    ¬ GoodHugePage 0xFFFF800000100000 ∧
    vmmGetPhys (vmmMapHugePage ⟨fun _ _ => 0, [0xFFFF800000301000, 0xFFFF800000302000]⟩
      0xFFFF800000300000 0x40000000 (virtToPhys 0xFFFF800000100000) ptPresent).2.tables
      0xFFFF800000300000 0x40001000 = 0x1000 := by
  obtain ⟨hbase, hend, hrun⟩ := megabyteMap_dma
  refine ⟨megabyteMap_ok, ?_, by decide, fun hgood => absurd hgood.1 (by decide), by decide +kernel⟩
  have hspec := megabyteMap_ok.initSpec
  have hcount := hrun.le_freeCount
  rw [← hspec.counted] at hcount
  have hdma : ((pmmInit megabyteMap).zones .dma).HasHugeBlock := ⟨hcount, 0, by rw [hbase]; exact hrun⟩
  -- the other zones have no pages
  have hempty : ∀ w, w ≠ .dma → ¬ ((pmmInit megabyteMap).zones w).HasHugeBlock := by
    rintro w hw ⟨hgate, -⟩
    have hfree := hspec.free_le w
    rw [hspec.total] at hfree
    have hnone : pagesIn w megabyteMap = 0 := by
      cases w with
      | dma => exact absurd rfl hw
      | dma32 => decide
      | normal => decide
    omega
  rcases pmmAllocHugePage_cases (pmmInit megabyteMap) with ⟨z, k, hz, hblock, hp⟩ | ⟨hnone, -⟩
  · have hzone : z = .dma := by
      by_contra hne
      exact hempty z hne hz.block
    subst hzone
    have hle := hblock.le_end
    rw [hp, hbase, show k = 0 by omega]
    decide
  · refine absurd ⟨hdma, fun w hw => hempty w ?_⟩ (hnone .dma)
    rintro rfl
    exact absurd hw (by decide)

end Vmm

end Kos
