import Kos.Pmm.Init
/-!
# Pmm — the zones share out the memory map

`pmm_init` rounds, clips and classifies each entry once in each pass.
Read as pages of the map, the result is plain: every whole page that an
available entry has at or above 1 MB is in one zone, the two low zones
stay below the addresses they are named for, and a bit is clear for the
pages of the map and for no other frame.
-/

namespace Kos

namespace Pmm

variable {z w : ZoneIdx} {e : MmapEntry} {mmap : List MmapEntry}

/-- A frame in the range of a zone. -/
def MemoryZone.Holds (zone : MemoryZone) (f : ℕ) : Prop := zone.basePfn ≤ f ∧ f < zone.endPfn

instance (zone : MemoryZone) (f : ℕ) : Decidable (zone.Holds f) := inferInstanceAs (Decidable (_ ∧ _))

/-- **A whole page of an entry**, at or above 1 MB. -/
def MmapEntry.HasPage (e : MmapEntry) (f : ℕ) : Prop :=
  0x100000 ≤ f * pageSize ∧
    e.baseAddr.toNat ≤ f * pageSize ∧ (f + 1) * pageSize ≤ e.baseAddr.toNat + e.length.toNat

instance (f : ℕ) : Decidable (e.HasPage f) := inferInstanceAs (Decidable (_ ∧ _ ∧ _))

/-- The frames an entry is clipped and rounded to are its whole pages. -/
theorem MmapEntry.hasPage_iff (hfit : e.baseAddr.toNat + e.length.toNat ≤ 2 ^ 52) {f : ℕ} :
    e.HasPage f ↔ e.lo ≤ f ∧ f < e.hi := by
  have hs := e.start_eq
  have ht := e.stop_eq
  have hlo := e.clipLow_start
  have hhi := e.stop_eq_hi
  simp only [clipLow] at hlo
  simp only [MmapEntry.HasPage, pageSize]
  split at hlo <;> omega

theorem MapOk.mem_claimed_iff (hok : MapOk mmap) {f : ℕ} :
    (∃ w, (w, f) ∈ claimed mmap) ↔ ∃ e ∈ mmap, e.available = true ∧ e.HasPage f := by
  constructor
  · rintro ⟨w, hw⟩
    obtain ⟨e, he, hav, -, h1, h2⟩ := mem_claimed.1 hw
    exact ⟨e, he, hav, (MmapEntry.hasPage_iff (hok.below e he hav)).2 ⟨h1, h2⟩⟩
  · rintro ⟨e, he, hav, hpage⟩
    obtain ⟨h1, h2⟩ := (MmapEntry.hasPage_iff (hok.below e he hav)).1 hpage
    exact ⟨e.zone, mem_claimed.2 ⟨e, he, hav, rfl, h1, h2⟩⟩

/-- A populated zone begins with one of its entries. -/
theorem MapOk.basePfn_from (hok : MapOk mmap) (z : ZoneIdx) :
    ((pmmInit mmap).zones z).basePfn = 2 ^ 64 - 1 ∨
      ∃ e ∈ mmap, e.Contributes ∧ e.zone = z ∧ e.lo = ((pmmInit mmap).zones z).basePfn := by
  have hbase : ((pmmInit mmap).zones z).basePfn =
      ((mmap.foldl freeEntry (fillBitmaps (mmap.foldl addEntry emptyState))).zones z).basePfn :=
    hok.mapped.reserved.layout.base z
  rw [hbase]
  exact hok.mapped.base_from z

/-- And ends with one of them. -/
theorem MapOk.endPfn_from (hok : MapOk mmap) (z : ZoneIdx) :
    ((pmmInit mmap).zones z).endPfn = 0 ∨
      ∃ e ∈ mmap, e.Contributes ∧ e.zone = z ∧ e.hi = ((pmmInit mmap).zones z).endPfn := by
  have hstop : ((pmmInit mmap).zones z).endPfn =
      ((mmap.foldl freeEntry (fillBitmaps (mmap.foldl addEntry emptyState))).zones z).endPfn :=
    hok.mapped.reserved.layout.stop z
  rw [hstop]
  exact hok.mapped.end_from z

/-- A zone ends where its entries may end. -/
theorem MapOk.endPfn_le_cap (hok : MapOk mmap) (z : ZoneIdx) :
    ((pmmInit mmap).zones z).endPfn ≤ z.cap := by
  rcases hok.endPfn_from z with hend | ⟨e, -, -, hz, hend⟩
  · rw [hend]
    exact Nat.zero_le z.cap
  · rw [← hend, ← hz]
    exact e.hi_le_cap

/-- Two zones hold no frame in common, so a claimed frame is held by the
zone that claims it and by no other. -/
theorem InitSpec.zone_eq {s : State} (h : InitSpec mmap s) {f : ℕ} (hf : (w, f) ∈ claimed mmap)
    (hz : (s.zones z).Holds f) : w = z := by
  by_contra hne
  obtain ⟨h1, h2⟩ := h.covers w f hf
  exact h.apart w z f hne h1 h2 hz

/-- The bit of a frame in a zone's range. -/
theorem InitSpec.used_iff {s : State} (h : InitSpec mmap s) {f : ℕ} (hf : (s.zones z).Holds f) :
    (s.zones z).used (f - (s.zones z).basePfn) = false ↔
      (∃ w, (w, f) ∈ claimed mmap) ∧ ¬ (z = .normal ∧ f < 0x1000) := by
  have hidx : f - (s.zones z).basePfn < (s.zones z).span := Nat.sub_lt_sub_right hf.1 hf.2
  rw [h.clear_iff z _ hidx, Nat.add_sub_cancel' hf.1]
  refine and_congr_left fun _ => ⟨fun hclaim => ⟨z, hclaim⟩, ?_⟩
  rintro ⟨w, hw⟩
  rwa [h.zone_eq hw hf] at hw

/-- **`pmm_init` shares out the memory map.** The ranges of the zones are
disjoint and hold every whole available page from 1 MB on once; the low
zones keep below 16 MB and 4 GB; the clear bits are those of the map's
pages, without the first 16 MB of `ZONE_NORMAL`; and the counters agree
with the bits and with each other. -/
theorem MapOk.pmmInit_zones (hok : MapOk mmap) :
    let s := pmmInit mmap
    (∀ z w f, z ≠ w → (s.zones z).Holds f → ¬ (s.zones w).Holds f) ∧
      (∀ f, (∃ e ∈ mmap, e.available = true ∧ e.HasPage f) → ∃! z, (s.zones z).Holds f) ∧
      (∀ f, (s.zones .dma).Holds f → f * pageSize < 0x1000000) ∧
      (∀ f, (s.zones .dma32).Holds f → f * pageSize < 0x100000000) ∧
      (∀ z f, (s.zones z).Holds f → ((s.zones z).used (f - (s.zones z).basePfn) = false ↔
        (∃ e ∈ mmap, e.available = true ∧ e.HasPage f) ∧
          ¬ (z = .normal ∧ f * pageSize < 0x1000000))) ∧
      (∀ z, (s.zones z).freePages = freeCount (s.zones z).used (s.zones z).span) ∧
      s.totalSystemPages =
        (s.zones .dma).totalPages + (s.zones .dma32).totalPages + (s.zones .normal).totalPages := by
  intro s
  have h : InitSpec mmap s := hok.initSpec
  have hdma : (s.zones .dma).endPfn ≤ 0x1000 := hok.endPfn_le_cap .dma
  have hdma32 : (s.zones .dma32).endPfn ≤ 0x100000 := hok.endPfn_le_cap .dma32
  -- the zones are apart by their first pass, and an entry's pages are claimed for one zone
  refine ⟨fun z w f hne hf => h.apart z w f hne hf.1 hf.2, fun f hpage => ?_, fun f hf => ?_,
    fun f hf => ?_, fun z f hf => ?_, h.counted, ?_⟩
  · obtain ⟨z, hz⟩ := hok.mem_claimed_iff.2 hpage
    exact ⟨z, h.covers z f hz, fun w hw => (h.zone_eq hz hw).symm⟩
  · have hlt := hf.2
    change f * 4096 < 0x1000000
    omega
  · have hlt := hf.2
    change f * 4096 < 0x100000000
    omega
  · rw [h.used_iff hf, hok.mem_claimed_iff]
    refine and_congr_right fun _ => not_congr (and_congr_right fun _ => ?_)
    simp only [pageSize]
    omega
  · rw [h.system, h.total, h.total, h.total]
    exact (pagesIn_sum mmap).symm

/-- A map with an entry that is not page aligned, a reserved one over it,
and one that begins in the first 16 MB and ends past 4 GB. -/
def mixedMap : List MmapEntry :=
  [⟨0xF00000, 0xFF102000, 1⟩, ⟨0x100800, 0x3000, 1⟩, ⟨0x100000, 0x4000, 2⟩]

theorem mixedMap_ok : MapOk mixedMap where
  disjoint := by
    refine List.Pairwise.cons ?_ (List.Pairwise.cons ?_ (List.pairwise_singleton _ _))
    · intro e he hav hav' a ha
      rw [List.mem_pair] at he
      rcases he with rfl | rfl
      · simp only [MmapEntry.Contains, UInt64.toNat_ofNat] at ha ⊢
        omega
      · cases hav'
    · intro e he hav hav'
      rw [List.mem_singleton] at he
      subst he
      cases hav'
  below := by decide

/-- The page at `0x101000` is in one zone and free, and `ZONE_NORMAL`
begins with a frame that is not. -/
theorem pmmInit_zones_mixed : MapOk mixedMap ∧
    let s := pmmInit mixedMap
    (∃! z, (s.zones z).Holds 0x101) ∧
      ((s.zones .normal).Holds 0xF00 →
        (s.zones .normal).used (0xF00 - (s.zones .normal).basePfn) ≠ false) := by
  have h := mixedMap_ok.pmmInit_zones
  refine ⟨mixedMap_ok, h.2.1 0x101 ⟨_, List.mem_cons_of_mem _ List.mem_cons_self, rfl, by decide⟩,
    fun hf hclear => ?_⟩
  exact ((h.2.2.2.2.1 .normal 0xF00 hf).1 hclear).2 ⟨rfl, by decide⟩

end Pmm

end Kos
