import Kos.Pmm.Backing
import Kos.Pmm.Zones
/-!
# Pmm — the bitmaps and the tracker they are placed by

The first bitmap is placed on the page the tracker of the early
allocator lies on, and its fill goes over the tracker. So no populated
zone gets a bitmap away from the tracker. What the fill leaves of the
tracker decides about the next call: where the first bitmap has more
than 8 KB, it marks all pages the search goes through, and the next zone
that needs a bitmap panics.
-/

namespace Kos

namespace Pmm

variable {mem : ByteMem} {eb i c n top pages : ℕ} {s s' : Phys} {s₁ : State} {z w : ZoneIdx}
  {mmap : List MmapEntry}

/-! ## When the search ends -/

/-- The search ends where there is a candidate that fits. -/
theorem earlySearch_isSome : ∀ {n i}, i ≤ c → c < i + n → earlyFound mem eb pages c = true →
    (earlySearch mem eb pages n i).isSome = true := by
  intro n
  induction n with
  | zero => intro i h1 h2; omega
  | succ n ih =>
    intro i h1 h2 hfound
    rw [earlySearch]
    split
    · rfl
    · rename_i hnot
      have hne : i ≠ c := by
        rintro rfl
        exact hnot hfound
      exact ih (by omega) (by omega) hfound

/-- **The search of a tracker** ends at the end of its run, if that is one
of the 65536 pages it goes through. -/
theorem Tracked.search_eq (h : Tracked mem top) (hp : 0 < pages) (hfit : pages ≤ 131072) :
    earlySearch mem 0x100000 pages 65536 0 = if top < 65536 then some top else none := by
  by_cases htop : top < 65536
  · rw [if_pos htop]
    -- every page from `top` on is unused, so the search ends there at the latest
    have hfound : earlyFound mem 0x100000 pages top = true := by
      rw [earlyFound_iff]
      intro j hj
      exact h.unused (top + j) (by omega) (by omega)
    obtain ⟨r, hr⟩ := Option.isSome_iff_exists.1
      (earlySearch_isSome (n := 65536) (Nat.zero_le top) (by omega) hfound)
    rw [hr, h.search hp hr]
  · rw [if_neg htop]
    cases hr : earlySearch mem 0x100000 pages 65536 0 with
    | none => rfl
    | some r =>
      have hlt := (earlySearch_spec hr).2.1
      have heq := h.search hp hr
      omega

theorem pmmEarlyAlloc_isSome (s : Phys) (pages : ℕ) : (pmmEarlyAlloc s pages).isSome =
    (earlySearch s.earlyStart.mem s.earlyStart.earlyBitmap pages 65536 0).isSome := by
  rw [pmmEarlyAlloc]
  cases earlySearch s.earlyStart.mem s.earlyStart.earlyBitmap pages 65536 0 <;> rfl

theorem placeBitmap_isSome_eq (ht : (s.zones z).totalPages ≠ 0) : (placeBitmap s z).isSome =
    (pmmEarlyAlloc s (bitmapPages (bitmapSize (s.zones z).span))).isSome := by
  rw [placeBitmap, if_neg ht]
  dsimp only
  cases pmmEarlyAlloc s (bitmapPages (bitmapSize (s.zones z).span)) <;> rfl

/-- **One zone gets its bitmap** if it needs none, or the run is short
enough. -/
theorem Placing.placeBitmap_isSome {done : List ZoneIdx} (h : Placing s₁ done top s)
    (hspan : (s₁.zones z).totalPages ≠ 0 → 0 < (s₁.zones z).span)
    (hfit : s₁.bitmapBytes z ≤ 131072 * 4096) :
    (placeBitmap s z).isSome = true ↔ (s₁.bitmapBytes z ≠ 0 → top < 65536) := by
  have htot := (h.like z).total
  obtain ⟨heb, htr⟩ := h.earlyStart
  by_cases ht : (s₁.zones z).totalPages = 0
  · have hzero : s₁.bitmapBytes z = 0 := if_pos ht
    rw [placeBitmap, if_pos (htot.trans ht)]
    exact ⟨fun _ hne => absurd hzero hne, fun _ => rfl⟩
  · have hb : s₁.bitmapBytes z = bitmapSize (s₁.zones z).span := if_neg ht
    have hne : s₁.bitmapBytes z ≠ 0 := by
      have := hspan ht
      have := span_le_bitmapSize (s₁.zones z).span
      omega
    have hpages := bitmapPages_pos (n := s₁.bitmapBytes z) (by omega)
    have hle : bitmapPages (s₁.bitmapBytes z) ≤ 131072 := by
      simp only [bitmapPages, pageSize]
      omega
    rw [placeBitmap_isSome_eq (htot ▸ ht), pmmEarlyAlloc_isSome, (h.like z).span, ← hb, heb,
      htr.search_eq hpages hle]
    by_cases htop : top < 65536
    · rw [if_pos htop]
      exact ⟨fun _ _ => htop, fun _ => rfl⟩
    · rw [if_neg htop]
      exact ⟨fun hc => absurd hc (by decide), fun hc => absurd (hc hne) htop⟩

/-- **The bitmap phase does not panic** exactly if every bitmap has its
place among the first 65536 pages. -/
theorem placeBitmaps_isSome_iff (mem : ByteMem)
    (hspan : ∀ z, (s₁.zones z).totalPages ≠ 0 → 0 < (s₁.zones z).span)
    (hfit : ∀ z, s₁.bitmapBytes z ≤ 131072 * 4096) :
    (placeBitmaps freeOrder (Phys.ofMap mem s₁)).isSome = true ↔
      ∀ z, s₁.bitmapBytes z ≠ 0 → bitmapPos s₁.bitmapBytes z < 65536 := by
  have h0 := placing_start mem s₁
  -- the zones in the order of the loop; each step moves the first free page up
  have hdma := h0.placeBitmap_isSome (hspan .dma) (hfit .dma)
  rw [freeOrder, placeBitmaps]
  cases ha : placeBitmap (Phys.ofMap mem s₁) .dma with
  | none =>
    rw [ha] at hdma
    exact absurd (hdma.2 fun _ => by decide) (by decide)
  | some a =>
    have h1 := h0.step (by simp) (hspan .dma) rfl ha
    have hdma32 := h1.placeBitmap_isSome (hspan .dma32) (hfit .dma32)
    dsimp only
    rw [placeBitmaps]
    cases hb : placeBitmap a .dma32 with
    | none =>
      rw [hb] at hdma32
      refine ⟨fun hc => absurd hc (by decide), fun hall => ?_⟩
      exact absurd (hdma32.2 (hall .dma32)) (by decide)
    | some b =>
      have h2 := h1.step (by simp) (hspan .dma32) rfl hb
      have hnormal := h2.placeBitmap_isSome (hspan .normal) (hfit .normal)
      rw [hb] at hdma32
      -- the first two bitmaps have their pages, so the third decides
      have hall : (∀ z, s₁.bitmapBytes z ≠ 0 → bitmapPos s₁.bitmapBytes z < 65536) ↔
          (s₁.bitmapBytes .normal ≠ 0 → bitmapPos s₁.bitmapBytes .normal < 65536) := by
        refine ⟨fun h => h .normal, fun h z => ?_⟩
        cases z with
        | dma => exact fun _ => Nat.succ_pos 65535
        | dma32 => exact hdma32.1 rfl
        | normal => exact h
      rw [hall]
      dsimp only
      rw [placeBitmaps]
      change _ ↔ (s₁.bitmapBytes .normal ≠ 0 →
        nextTop (nextTop 0 (s₁.bitmapBytes .dma)) (s₁.bitmapBytes .dma32) < 65536)
      rw [← hnormal]
      cases placeBitmap b .normal with
      | none => exact Iff.rfl
      | some c => exact ⟨fun _ => rfl, fun _ => rfl⟩

/-! ## Maps below 16 GB -/

/-- **A memory map of the system the code is for**: its available entries
are pairwise disjoint and end at 16 GB or below. -/
structure MapBelow16GB (mmap : List MmapEntry) : Prop where
  disjoint : mmap.Pairwise MmapEntry.Apart
  below : ∀ e ∈ mmap, e.available = true → e.baseAddr.toNat + e.length.toNat ≤ 2 ^ 34

theorem MapBelow16GB.mapOk (h : MapBelow16GB mmap) : MapOk mmap :=
  ⟨h.disjoint, fun e he hav => (h.below e he hav).trans (by decide)⟩

/-- The frames of a zone. -/
theorem MapBelow16GB.span_le (h : MapBelow16GB mmap) (hfirst : FirstPass mmap s₁) (z : ZoneIdx) :
    (s₁.zones z).span ≤ 2 ^ 22 ∧ (s₁.zones z).span ≤ z.cap := by
  rw [MemoryZone.span]
  rcases hfirst.end_from z with hend | ⟨e, he, hc, hz, hend⟩
  · omega
  · have hcap := e.hi_le_cap
    have hstop := e.stop_eq
    have hhi := e.stop_eq_hi
    have hlt := h.below e he hc.1
    rw [hz] at hcap
    omega

theorem MapBelow16GB.mapBytes_le (h : MapBelow16GB mmap) (z : ZoneIdx) :
    mapBytes mmap z ≤ 2 ^ 19 ∧ 8 * mapBytes mmap z ≤ z.cap + 63 := by
  have hfirst := firstPass mmap
  rw [← hfirst.bitmapBytes_eq]
  obtain ⟨h1, h2⟩ := h.span_le hfirst z
  simp only [State.bitmapBytes, bitmapSize]
  split
  · omega
  · omega

/-- **The places of the bitmaps past the first 65536 pages**: there is one
where `ZONE_DMA` has no bitmap and that of `ZONE_DMA32` marks them all. -/
theorem MapBelow16GB.bitmapPos_lt_iff (h : MapBelow16GB mmap) :
    (∀ z, mapBytes mmap z ≠ 0 → bitmapPos (mapBytes mmap) z < 65536) ↔
      ¬ (mapBytes mmap .dma = 0 ∧ 65536 ≤ 8 * mapBytes mmap .dma32 ∧ mapBytes mmap .normal ≠ 0) := by
  have hdma : 8 * mapBytes mmap .dma ≤ 0x1000 + 63 := (h.mapBytes_le .dma).2
  have hdma32 := (h.mapBytes_le .dma32).1
  have hpages : bitmapPages (mapBytes mmap .dma32) ≤ 128 := by
    simp only [bitmapPages, pageSize]
    omega
  -- a bitmap of `ZONE_DMA` has one page, so the next one starts low
  have hsecond : nextTop 0 (mapBytes mmap .dma) < 65536 := by
    simp only [nextTop]
    split_ifs <;> omega
  have hthird : nextTop (nextTop 0 (mapBytes mmap .dma)) (mapBytes mmap .dma32) < 65536 ↔
      ¬ (mapBytes mmap .dma = 0 ∧ 65536 ≤ 8 * mapBytes mmap .dma32) := by
    simp only [nextTop]
    split_ifs <;> omega
  constructor
  · rintro hall ⟨h0, hbig, hne⟩
    exact hthird.1 (hall .normal hne) ⟨h0, hbig⟩
  · intro hnot z hz
    cases z with
    | dma => exact Nat.succ_pos 65535
    | dma32 => exact hsecond
    | normal => exact hthird.2 fun hc => hnot ⟨hc.1, hc.2, hz⟩

/-! ## The bitmaps and the tracker -/

/-- A page of the tracker, `0x100000` to `0x107FFF`. -/
def TrackerFrame (f : ℕ) : Prop := 0x100 ≤ f ∧ f < 0x108

/-- **Every zone has a bitmap, and the bitmaps lie apart.** -/
structure BitmapsApart (s : Phys) : Prop where
  given : ∀ z, (s.zones z).totalPages ≠ 0 → (s.zones z).bitmap ≠ 0
  disjoint : ∀ z w f, z ≠ w → (s.zones z).Backs f → ¬ (s.zones w).Backs f

/-- **The bitmap phase as it should end**: without a panic, and with the
bitmaps apart from each other and from the tracker. -/
def WellPlaced (mem : ByteMem) (mmap : List MmapEntry) : Prop :=
  ∃ s, placeBitmaps freeOrder (Phys.ofMap mem (mmap.foldl addEntry emptyState)) = some s ∧
    BitmapsApart s ∧ ∀ z f, (s.zones z).Backs f → ¬ TrackerFrame f

/-- The frames under a bitmap, by its place. -/
theorem Placing.backs_iff (h : Placing s₁ freeOrder top s) {f : ℕ} :
    (s.zones z).Backs f ↔ s₁.bitmapBytes z ≠ 0 ∧ 0x100 + bitmapPos s₁.bitmapBytes z ≤ f ∧
      f < 0x100 + bitmapPos s₁.bitmapBytes z + bitmapPages (s₁.bitmapBytes z) := by
  have hall : z ∈ freeOrder := by cases z <;> decide
  rw [PhysZone.Backs]
  by_cases hb : s₁.bitmapBytes z = 0
  · have hnull := h.null z fun _ => hb
    exact ⟨fun hc => absurd hnull hc.1, fun hc => absurd hb hc.1⟩
  · have hsize : s₁.bitmapBytes z = bitmapSize (s₁.zones z).span :=
      if_neg fun ht => hb (if_pos ht)
    have hat := h.placed z hall hb
    rw [(h.like z).span, ← hsize, hat, Nat.mul_div_cancel_left _ (by decide)]
    refine and_congr_left fun _ => ⟨fun _ => hb, fun _ => ?_⟩
    omega

/-- **The bitmaps lie apart** whenever the phase comes to its end. -/
theorem Placing.bitmapsApart (h : Placing s₁ freeOrder top s)
    (hspan : ∀ z, (s₁.zones z).totalPages ≠ 0 → 0 < (s₁.zones z).span) : BitmapsApart s := by
  have hall : ∀ z, z ∈ freeOrder := fun z => by cases z <;> decide
  refine ⟨fun z ht => ?_, fun z w f hne hz hw => ?_⟩
  · rw [(h.like z).total] at ht
    rw [h.placed z (hall z) (bitmapBytes_ne ht (hspan z ht))]
    omega
  · rw [h.backs_iff] at hz hw
    rcases Nat.lt_trichotomy z.rank w.rank with hlt | heq | hlt
    · have := bitmapPos_apart s₁.bitmapBytes hlt hz.1
      omega
    · exact hne (ZoneIdx.rank_inj heq)
    · have := bitmapPos_apart s₁.bitmapBytes hlt hw.1
      omega

/-- **The first bitmap lies on the tracker.** -/
theorem Placing.backs_tracker (h : Placing s₁ freeOrder top s) (hz : s₁.bitmapBytes z ≠ 0) :
    ∃ w, (s.zones w).Backs 0x100 := by
  have hpages : ∀ w, s₁.bitmapBytes w ≠ 0 → 0 < bitmapPages (s₁.bitmapBytes w) := fun w hw =>
    bitmapPages_pos (by omega)
  have hfirst : ∀ w, s₁.bitmapBytes w ≠ 0 → bitmapPos s₁.bitmapBytes w = 0 →
      (s.zones w).Backs 0x100 := by
    intro w hw hpos
    have := hpages w hw
    exact h.backs_iff.2 ⟨hw, by omega, by omega⟩
  -- the first zone with a bitmap has it at the first page, which is the tracker's
  by_cases hdma : s₁.bitmapBytes .dma = 0
  · have hsecond : bitmapPos s₁.bitmapBytes .dma32 = 0 := by rw [bitmapPos, hdma]; rfl
    by_cases hdma32 : s₁.bitmapBytes .dma32 = 0
    · have hthird : bitmapPos s₁.bitmapBytes .normal = 0 := by rw [bitmapPos, hdma, hdma32]; rfl
      cases z with
      | dma => exact absurd hdma hz
      | dma32 => exact absurd hdma32 hz
      | normal => exact ⟨.normal, hfirst .normal hz hthird⟩
    · exact ⟨.dma32, hfirst .dma32 hdma32 hsecond⟩
  · exact ⟨.dma, hfirst .dma hdma rfl⟩

/-- A zone has a bitmap exactly if the map has a page for it. -/
theorem MapOk.mapBytes_eq_zero_iff (hok : MapOk mmap) :
    mapBytes mmap z = 0 ↔ ∀ f, (z, f) ∉ claimed mmap := by
  have hfirst := firstPass mmap
  have hle := hok.pagesIn_le z
  have htotal := hfirst.total z
  rw [Nat.mod_eq_of_lt (by omega)] at htotal
  -- no page is counted for the zone where none is claimed for it
  have hcount : pagesIn z mmap = 0 ↔ ∀ f, (z, f) ∉ claimed mmap := by
    rw [pagesIn_eq, List.countP_eq_zero]
    constructor
    · intro h f hf
      exact h _ hf (by simp)
    · rintro h ⟨w, f⟩ hf hw
      obtain rfl : w = z := by simpa using hw
      exact h f hf
  rw [← hcount, ← htotal, ← hfirst.bitmapBytes_eq]
  constructor
  · intro hzero
    by_contra ht
    exact bitmapBytes_ne ht (hfirst.span_pos ht) hzero
  · intro ht
    exact if_pos ht

/-- **The phase panics** exactly where `ZONE_DMA` has no bitmap, that of
`ZONE_DMA32` has 8 KB or more, and `ZONE_NORMAL` needs one. -/
theorem MapBelow16GB.panics_iff (h : MapBelow16GB mmap) (mem : ByteMem) :
    placeBitmaps freeOrder (Phys.ofMap mem (mmap.foldl addEntry emptyState)) = none ↔
      mapBytes mmap .dma = 0 ∧ 65536 ≤ 8 * mapBytes mmap .dma32 ∧ mapBytes mmap .normal ≠ 0 := by
  have hfirst := firstPass mmap
  have hbytes := hfirst.bitmapBytes_eq
  have hfit : ∀ z, (mmap.foldl addEntry emptyState).bitmapBytes z ≤ 131072 * 4096 := by
    intro z
    rw [hbytes]
    exact (h.mapBytes_le z).1.trans (by decide)
  have hsome := placeBitmaps_isSome_iff mem (fun z => hfirst.span_pos) hfit
  rw [hbytes, h.bitmapPos_lt_iff] at hsome
  rw [← Option.not_isSome_iff_eq_none, hsome, not_not]

/-- **Where the bitmaps go**, on every map below 16 GB. They are apart from
each other wherever there is no panic. But the first of them is on the
tracker, so all is well only where no zone has a page; and the panic is
reached where the first one covers what the search reads. -/
theorem MapBelow16GB.wellPlaced_iff (h : MapBelow16GB mmap) (mem : ByteMem) :
    (WellPlaced mem mmap ↔ ∀ e ∈ mmap, e.available = true → ∀ f, ¬ e.HasPage f) ∧
      (placeBitmaps freeOrder (Phys.ofMap mem (mmap.foldl addEntry emptyState)) = none ↔
        mapBytes mmap .dma = 0 ∧ 65536 ≤ 8 * mapBytes mmap .dma32 ∧ mapBytes mmap .normal ≠ 0) ∧
      ∀ s, placeBitmaps freeOrder (Phys.ofMap mem (mmap.foldl addEntry emptyState)) = some s →
        BitmapsApart s := by
  have hok := h.mapOk
  have hfirst := firstPass mmap
  have hspan : ∀ z, ((mmap.foldl addEntry emptyState).zones z).totalPages ≠ 0 →
      0 < ((mmap.foldl addEntry emptyState).zones z).span := fun z => hfirst.span_pos
  have hapart : ∀ s, placeBitmaps freeOrder (Phys.ofMap mem (mmap.foldl addEntry emptyState)) =
      some s → BitmapsApart s := by
    intro s hs
    obtain ⟨top, hplacing⟩ := placeBitmaps_spec hspan hs
    exact hplacing.bitmapsApart hspan
  refine ⟨?_, h.panics_iff mem, hapart⟩
  constructor
  · rintro ⟨s, hs, -, htracker⟩ e he hav f hpage
    obtain ⟨w, hw⟩ := hok.mem_claimed_iff.2 ⟨e, he, hav, hpage⟩
    obtain ⟨top, hplacing⟩ := placeBitmaps_spec hspan hs
    have hne : (mmap.foldl addEntry emptyState).bitmapBytes w ≠ 0 := by
      rw [hfirst.bitmapBytes_eq]
      exact fun hzero => hok.mapBytes_eq_zero_iff.1 hzero f hw
    obtain ⟨z, hz⟩ := hplacing.backs_tracker hne
    exact htracker z 0x100 hz ⟨by decide, by decide⟩
  · intro hnone
    -- no zone has a page, so none needs a bitmap
    have hbytes : ∀ z, mapBytes mmap z = 0 := by
      intro z
      refine hok.mapBytes_eq_zero_iff.2 fun f hf => ?_
      obtain ⟨e, he, hav, hpage⟩ := hok.mem_claimed_iff.1 ⟨z, hf⟩
      exact hnone e he hav f hpage
    cases hs : placeBitmaps freeOrder (Phys.ofMap mem (mmap.foldl addEntry emptyState)) with
    | none => exact absurd (hbytes .normal) ((h.panics_iff mem).1 hs).2.2
    | some s =>
      obtain ⟨top, hplacing⟩ := placeBitmaps_spec hspan hs
      refine ⟨s, hs, hapart s hs, fun z f hf => ?_⟩
      rw [hplacing.backs_iff, hfirst.bitmapBytes_eq] at hf
      exact absurd (hbytes z) hf.1

/-- The memory below 640 KB, which no zone takes. -/
theorem wellPlaced_low_memory : MapBelow16GB [⟨0, 0x9FC00, 1⟩] ∧
    WellPlaced (fun _ => 0) [⟨0, 0x9FC00, 1⟩] := by
  have hmap : MapBelow16GB [⟨0, 0x9FC00, 1⟩] := ⟨List.pairwise_singleton _ _, by decide⟩
  refine ⟨hmap, (hmap.wellPlaced_iff fun _ => 0).1.2 fun e he _ f hpage => ?_⟩
  rw [List.mem_singleton.1 he] at hpage
  simp only [MmapEntry.HasPage, pageSize, UInt64.toNat_ofNat] at hpage
  omega

/-- Memory up to 3 GB, and from 4 GB to 8 GB. -/
def eightGigabytes : List MmapEntry :=
  [⟨0x100000, 0xBFF00000, 1⟩, ⟨0x100000000, 0x100000000, 1⟩]

theorem eightGigabytes_below : MapBelow16GB eightGigabytes where
  disjoint := by
    refine List.Pairwise.cons ?_ (List.pairwise_singleton _ _)
    intro e he _ _ a ha
    rw [List.mem_singleton] at he
    subst he
    simp only [MmapEntry.Contains, UInt64.toNat_ofNat] at ha ⊢
    omega
  below := by decide

/-- **The panic is reached**: the bitmap of the first three gigabytes has
96 KB, and all 65536 pages are marked when that of `ZONE_NORMAL` is to be
placed. -/
theorem eightGigabytes_panics : MapBelow16GB eightGigabytes ∧
    placeBitmaps freeOrder (Phys.ofMap (fun _ => 0) (eightGigabytes.foldl addEntry emptyState)) =
      none ∧
    ¬ WellPlaced (fun _ => 0) eightGigabytes := by
  have hpanic := (eightGigabytes_below.panics_iff fun _ => 0).2 (by decide)
  refine ⟨eightGigabytes_below, hpanic, ?_⟩
  rintro ⟨s, hs, -⟩
  rw [hpanic] at hs
  cases hs

end Pmm

end Kos
