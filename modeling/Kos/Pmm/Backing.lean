import Kos.Pmm.Accounting
import Kos.Pmm.Early
import Mathlib.Data.List.Find
/-!
# Pmm — no bitmap is handed out

The memory manager over one physical memory simulates the one with
private bitmaps as long as no allocation zeroes a page under a bitmap.
The model with private bitmaps says which frames can be handed out on
any map: the claimed ones of populated zones, less those the reservation
takes from `ZONE_NORMAL`. Where all of these lie above 16 MB and off the
pages of the bitmaps, both hold of every run of allocations.
-/

namespace Kos

namespace Pmm

variable {mem : ByteMem} {s s' : Phys} {s₁ t : State} {z w : ZoneIdx} {r : Request}
  {mmap : List MmapEntry}

/-! ## Searches read the bits of the zone -/

/-- Two zones that a search cannot tell apart. -/
structure MemoryZone.Agrees (zone zone' : MemoryZone) : Prop where
  base : zone.basePfn = zone'.basePfn
  stop : zone.endPfn = zone'.endPfn
  bits : ∀ idx < zone.span, zone.used idx = zone'.used idx

variable {zone zone' : MemoryZone}

theorem MemoryZone.Agrees.span (h : zone.Agrees zone') : zone.span = zone'.span := by
  rw [MemoryZone.span, MemoryZone.span, h.base, h.stop]

theorem scanRun_congr {count : ℕ} (h : zone.Agrees zone') : ∀ {l : List ℕ} {c st : ℕ},
    (∀ pfn ∈ l, pfn - zone.basePfn < zone.span) →
    scanRun zone count l c st = scanRun zone' count l c st := by
  intro l
  induction l with
  | nil => intros; rfl
  | cons pfn l ih =>
    intro c st hl
    have hrest : ∀ p ∈ l, p - zone.basePfn < zone.span := fun p hp =>
      hl p (List.mem_cons_of_mem _ hp)
    rw [scanRun, scanRun, h.bits _ (hl pfn List.mem_cons_self), h.base]
    simp only [ih hrest]

theorem Request.search_congr (h : zone.Agrees zone') (r : Request) :
    r.search zone = r.search zone' := by
  -- the searches read the bitmap at the frames of the zone only
  have hin : ∀ pfn ∈ List.range' zone.basePfn zone.span, pfn - zone.basePfn < zone.span := by
    intro pfn hp
    rw [List.mem_range'_1] at hp
    omega
  cases r with
  | page =>
    simp only [Request.search, findPage, ← h.base, ← h.span]
    exact List.find?_congr fun pfn hp => by rw [h.bits _ (hin pfn hp)]
  | pages count =>
    simp only [Request.search, findRun, ← h.base, ← h.span]
    exact scanRun_congr h hin
  | huge =>
    simp only [Request.search, findHuge, ← h.base, ← h.span]
    refine List.find?_congr fun pfn _ => ?_
    simp only [hugeFree, ← h.base, ← h.span]
    refine congrArg (List.all (List.range 512)) (funext fun i => ?_)
    -- past the end of the zone both give up, whatever the bit there
    by_cases hi : pfn + i - zone.basePfn < zone.span
    · rw [h.bits _ hi]
    · simp [hi]

/-! ## The simulation -/

/-- **The physical state stands for a state with private bitmaps**: equal
ranges and counters, and the bits of every populated zone agree. -/
structure Sim (s₁ : State) (s : Phys) (t : State) : Prop where
  like : ∀ z, (s.zones z).Like (t.zones z)
  system : s.totalSystemPages = t.totalSystemPages
  layout : SameLayout t s₁
  null : ∀ z, s₁.bitmapBytes z = 0 → (s.zones z).bitmap = 0
  placed : ∀ z, s₁.bitmapBytes z ≠ 0 →
    (s.zones z).bitmap = 4096 * (0x100 + bitmapPos s₁.bitmapBytes z)
  bits : ∀ z, s₁.bitmapBytes z ≠ 0 → ∀ idx < (s₁.zones z).span,
    s.mem.bit (8 * (s.zones z).bitmap + idx) = (t.zones z).used idx

/-- The frames under a zone's bitmap, read off the sizes. -/
def State.Backs (s₁ : State) (z : ZoneIdx) (f : ℕ) : Prop :=
  s₁.bitmapBytes z ≠ 0 ∧ 0x100 + bitmapPos s₁.bitmapBytes z ≤ f ∧
    f < 0x100 + bitmapPos s₁.bitmapBytes z + bitmapPages (s₁.bitmapBytes z)

/-- The bits of a zone lie in the pages of its bitmap. -/
theorem span_le_pages (h : s₁.bitmapBytes z ≠ 0) :
    (s₁.zones z).span ≤ 8 * (4096 * bitmapPages (s₁.bitmapBytes z)) := by
  have h1 := span_le_bitmapSize (s₁.zones z).span
  have h2 := le_bitmapPages (s₁.bitmapBytes z)
  have h3 : s₁.bitmapBytes z = bitmapSize (s₁.zones z).span := by
    unfold State.bitmapBytes at h ⊢
    split at h
    · exact absurd rfl h
    · rename_i ht
      rw [if_neg ht]
  omega

/-- **Bits of two zones are different bits of memory.** -/
theorem Sim.bit_ne (h : Sim s₁ s t) (hz : s₁.bitmapBytes z ≠ 0) (hw : s₁.bitmapBytes w ≠ 0)
    (hzw : z ≠ w) {i j : ℕ} (hi : i < (s₁.zones z).span) (hj : j < (s₁.zones w).span) :
    8 * (s.zones z).bitmap + i ≠ 8 * (s.zones w).bitmap + j := by
  have h1 := span_le_pages hz
  have h2 := span_le_pages hw
  rw [h.placed z hz, h.placed w hw]
  rcases Nat.lt_or_ge z.rank w.rank with hlt | hge
  · have := bitmapPos_apart s₁.bitmapBytes hlt hz
    omega
  · have hlt : w.rank < z.rank := lt_of_le_of_ne hge fun h => hzw (ZoneIdx.rank_inj h.symm)
    have := bitmapPos_apart s₁.bitmapBytes hlt hw
    omega

/-- The rule for a step that changes one zone's counter and some bits. -/
theorem Sim.update {tz : MemoryZone} {free : ℕ} {mem' : ByteMem} (h : Sim s₁ s t)
    (hb : tz.basePfn = (t.zones z).basePfn) (he : tz.endPfn = (t.zones z).endPfn)
    (ht : tz.totalPages = (t.zones z).totalPages) (hf : tz.freePages = free)
    (hself : s₁.bitmapBytes z ≠ 0 → ∀ idx < (s₁.zones z).span,
      mem'.bit (8 * (s.zones z).bitmap + idx) = tz.used idx)
    (hother : ∀ w, w ≠ z → s₁.bitmapBytes w ≠ 0 → ∀ idx < (s₁.zones w).span,
      mem'.bit (8 * (s.zones w).bitmap + idx) = s.mem.bit (8 * (s.zones w).bitmap + idx)) :
    Sim s₁ { s.setZone z { s.zones z with freePages := free } with mem := mem' }
      (t.setZone z tz) := by
  have hl := h.like z
  have hs : ∀ w, w ≠ z → Function.update s.zones z { s.zones z with freePages := free } w =
      s.zones w := fun w hw => Function.update_of_ne hw ..
  refine ⟨fun w => ?_, h.system, (SameLayout.setZone hb he ht).trans h.layout, fun w hw => ?_,
    fun w hw => ?_, fun w hw idx hidx => ?_⟩ <;> by_cases hwz : w = z
  · subst hwz
    rw [State.setZone_self]
    simp only [Phys.setZone, Function.update_self]
    exact ⟨hl.base.trans hb.symm, hl.stop.trans he.symm, hl.total.trans ht.symm, hf.symm⟩
  · rw [State.setZone_of_ne hwz]
    simp only [Phys.setZone, hs w hwz]
    exact h.like w
  · subst hwz
    simpa [Phys.setZone] using h.null w hw
  · simpa [Phys.setZone, hs w hwz] using h.null w hw
  · subst hwz
    simpa [Phys.setZone] using h.placed w hw
  · simpa [Phys.setZone, hs w hwz] using h.placed w hw
  · subst hwz
    rw [State.setZone_self]
    simpa [Phys.setZone] using hself hw idx hidx
  · rw [State.setZone_of_ne hwz, ← h.bits w hw idx hidx]
    simpa [Phys.setZone, hs w hwz] using hother w hwz hw idx hidx

/-! ## Initialisation -/

/-- After the bitmap phase every bit of a populated zone is set, as the
model with private bitmaps has it. -/
theorem Placing.sim {top : ℕ} (h : Placing s₁ freeOrder top s) : Sim s₁ s (fillBitmaps s₁) := by
  have hall : ∀ z, z ∈ freeOrder := by intro z; cases z <;> decide
  have hfill := fillBitmaps_zone s₁
  refine ⟨fun z => ?_, h.system,
    ⟨fun z => (hfill z).1, fun z => (hfill z).2.1, fun z => (hfill z).2.2.1, rfl⟩,
    fun z hz => h.null z fun _ => hz, fun z hz => h.placed z (hall z) hz, fun z hz idx hidx => ?_⟩
  · obtain ⟨h1, h2, h3, h4⟩ := h.like z
    exact ⟨h1.trans (hfill z).1.symm, h2.trans (hfill z).2.1.symm, h3.trans (hfill z).2.2.1.symm,
      h4.trans (hfill z).2.2.2.symm⟩
  · have ht : (s₁.zones z).totalPages ≠ 0 := fun ht => hz (if_pos ht)
    have hb : s₁.bitmapBytes z = bitmapSize (s₁.zones z).span := if_neg ht
    have hle := span_le_bitmapSize (s₁.zones z).span
    rw [h.ones z (hall z) hz idx (by omega), fillBitmaps_used ht]

theorem bitmapBytes_ne (ht : (s₁.zones z).totalPages ≠ 0) (hs : 0 < (s₁.zones z).span) :
    s₁.bitmapBytes z ≠ 0 := by
  have := span_le_bitmapSize (s₁.zones z).span
  rw [State.bitmapBytes, if_neg ht]
  omega

theorem Sim.freeEntryPage (h : Sim s₁ s t) (z : ZoneIdx) (addr : ℕ) :
    Sim s₁ (s.freeEntryPage z addr) (freeEntryPage z t addr) := by
  obtain ⟨hb, he, ht, hf⟩ := h.like z
  have h1 := h.layout.base z
  have h2 := h.layout.stop z
  have h3 := h.layout.total z
  simp only [Phys.freeEntryPage, Pmm.freeEntryPage]
  by_cases h0 : (t.zones z).totalPages = 0
  · rw [if_pos (ht.trans h0), if_pos h0]
    exact h
  by_cases hin : addr / pageSize < (t.zones z).basePfn ∨ addr / pageSize ≥ (t.zones z).endPfn
  · rw [if_neg (by omega), if_pos (by omega), if_neg h0, if_pos hin]
    exact h
  rw [if_neg (by omega), if_neg (by omega), if_neg h0, if_neg hin]
  have hidx : addr / pageSize - (s.zones z).basePfn < (s₁.zones z).span := by
    simp only [MemoryZone.span]
    omega
  have hz : s₁.bitmapBytes z ≠ 0 := bitmapBytes_ne (by omega) (by omega)
  refine Sim.update h rfl rfl rfl (by rw [hf]) (fun _ idx hlt => ?_) fun w hw hwb idx hlt => ?_
  · rw [bit_memBitmapClear, h.bits z hz idx hlt, hb]
    simp only [MemoryZone.used, bitmapTest_clear, Nat.add_left_cancel_iff]
  · rw [bit_memBitmapClear, decide_eq_false (h.bit_ne hwb hz hw hlt hidx), Bool.not_false,
      Bool.and_true]

/-- The reservation in a zone without a bitmap writes through `NULL`, far
below every bitmap. -/
theorem Sim.reservePage {k : ℕ} (h : Sim s₁ s t) (hk : k < 0x1000)
    (hend : k < (t.zones .normal).endPfn) :
    Sim s₁ (s.reservePage k) (reservePage t k) := by
  obtain ⟨hb, he, ht, hf⟩ := h.like .normal
  have h1 := h.layout.base .normal
  have h2 := h.layout.stop .normal
  simp only [Phys.reservePage, Pmm.reservePage]
  by_cases hin : k ≥ (t.zones .normal).basePfn
  · rw [if_pos (by omega), if_pos hin]
    have hidx : k - (s.zones .normal).basePfn < (s₁.zones .normal).span := by
      simp only [MemoryZone.span]
      omega
    refine Sim.update h rfl rfl rfl (by rw [hf]) (fun hz idx hlt => ?_) fun w hw hwb idx hlt => ?_
    · rw [bit_memBitmapSet, h.bits .normal hz idx hlt, hb]
      simp only [MemoryZone.used, bitmapTest_set, Nat.add_left_cancel_iff]
    · rw [bit_memBitmapSet]
      have hne : 8 * (s.zones w).bitmap + idx ≠
          8 * (s.zones .normal).bitmap + (k - (s.zones .normal).basePfn) := by
        by_cases hz : s₁.bitmapBytes .normal = 0
        · rw [h.null .normal hz, h.placed w hwb]
          omega
        · exact h.bit_ne hwb hz hw hlt hidx
      rw [decide_eq_false hne, Bool.false_or]
  · rw [if_neg (by omega), if_neg hin]
    exact h

theorem Sim.freeEntry (h : Sim s₁ s t) (e : MmapEntry) :
    Sim s₁ (s.freeEntry e) (freeEntry t e) := by
  unfold Phys.freeEntry Pmm.freeEntry
  split
  · exact h
  · exact List.foldl_rel h fun addr _ _ _ h => h.freeEntryPage _ addr

theorem Sim.reserveKernel (h : Sim s₁ s t) : Sim s₁ s.reserveKernel (reserveKernel t) := by
  unfold Phys.reserveKernel Pmm.reserveKernel
  rw [(h.like .normal).stop, h.layout.stop]
  refine List.foldl_rel h fun k hk u v huv => ?_
  rw [List.mem_range] at hk
  refine huv.reservePage (by omega) ?_
  rw [huv.layout.stop]
  omega

/-- A populated zone has a range: some entry went to it. -/
theorem FirstPass.span_pos {done : List MmapEntry} (h : FirstPass done s₁)
    (ht : (s₁.zones z).totalPages ≠ 0) : 0 < (s₁.zones z).span := by
  rw [h.total] at ht
  have hpos : 0 < pagesIn z done := by
    rcases Nat.eq_zero_or_pos (pagesIn z done) with h0 | hpos
    · rw [h0] at ht
      exact absurd rfl ht
    · exact hpos
  rw [pagesIn_eq, List.countP_pos_iff] at hpos
  obtain ⟨⟨w, f⟩, hmem, hw⟩ := hpos
  obtain ⟨e, he, hav, hez, hlo, hhi⟩ := mem_claimed.1 hmem
  have hcov := h.covers e he ⟨hav, by omega⟩
  have hwz : e.zone = z := hez.trans (by simpa using hw)
  rw [hwz] at hcov
  simp only [MemoryZone.span]
  omega

/-- **`pmm_init` on physical memory stands for `pmm_init` with private
bitmaps**, on every map and every initial memory. -/
theorem sim_init (hs : physInit mem mmap = some s) :
    Sim (mmap.foldl addEntry emptyState) s (pmmInit mmap) := by
  simp only [physInit, Option.map_eq_some_iff] at hs
  obtain ⟨s₂, hs₂, rfl⟩ := hs
  obtain ⟨top, hplace⟩ := placeBitmaps_spec (fun z => (firstPass mmap).span_pos) hs₂
  exact (List.foldl_rel hplace.sim fun e _ _ _ h => h.freeEntry e).reserveKernel

/-! ## What can be handed out, on any map -/

/-- **The frames a state can still hand out satisfy `avail`**, and a zone
without a bitmap has nothing to hand out. -/
structure Clean (s₁ : State) (avail : ZoneIdx → ℕ → Prop) (t : State) : Prop where
  layout : SameLayout t s₁
  clear : ∀ z, s₁.bitmapBytes z ≠ 0 → ∀ idx < (s₁.zones z).span,
    (t.zones z).used idx = false → avail z ((s₁.zones z).basePfn + idx)
  idle : ∀ z, s₁.bitmapBytes z = 0 → (t.zones z).freePages = 0

variable {avail avail' : ZoneIdx → ℕ → Prop}

theorem Clean.mono (h : Clean s₁ avail t)
    (hle : ∀ z, s₁.bitmapBytes z ≠ 0 → ∀ idx < (s₁.zones z).span,
      avail z ((s₁.zones z).basePfn + idx) → avail' z ((s₁.zones z).basePfn + idx)) :
    Clean s₁ avail' t :=
  ⟨h.layout, fun z hz idx hidx hu => hle z hz idx hidx (h.clear z hz idx hidx hu), h.idle⟩

/-- The rule for a step that changes one zone. -/
theorem Clean.update {tz : MemoryZone} (h : Clean s₁ avail t)
    (hb : tz.basePfn = (t.zones z).basePfn) (he : tz.endPfn = (t.zones z).endPfn)
    (ht : tz.totalPages = (t.zones z).totalPages)
    (hle : ∀ w f, w ≠ z → avail w f → avail' w f)
    (hclear : ∀ idx < (s₁.zones z).span, s₁.bitmapBytes z ≠ 0 → tz.used idx = false →
      avail' z ((s₁.zones z).basePfn + idx))
    (hidle : s₁.bitmapBytes z = 0 → tz.freePages = 0) : Clean s₁ avail' (t.setZone z tz) := by
  refine ⟨(SameLayout.setZone hb he ht).trans h.layout, fun w hw idx hidx hu => ?_, fun w hw => ?_⟩
    <;> by_cases hwz : w = z
  · subst hwz
    rw [State.setZone_self] at hu
    exact hclear idx hidx hw hu
  · rw [State.setZone_of_ne hwz] at hu
    exact hle w _ hwz (h.clear w hw idx hidx hu)
  · subst hwz
    rw [State.setZone_self]
    exact hidle hw
  · rw [State.setZone_of_ne hwz]
    exact h.idle w hw

theorem clean_fill (h : FirstPass mmap s₁) (avail : ZoneIdx → ℕ → Prop) :
    Clean s₁ avail (fillBitmaps s₁) := by
  have hfill := fillBitmaps_zone s₁
  refine ⟨⟨fun z => (hfill z).1, fun z => (hfill z).2.1, fun z => (hfill z).2.2.1, rfl⟩,
    fun z hz idx _ hu => ?_, fun z _ => ?_⟩
  · rw [fillBitmaps_used fun ht => hz (if_pos ht)] at hu
    exact Bool.noConfusion hu
  · rw [(hfill z).2.2.2, h.free]

/-- Clearing the bit of a frame that may be handed out. -/
theorem Clean.freeClaimed {f : ℕ} (h : Clean s₁ avail t) (hf : avail z f) :
    Clean s₁ avail (freeClaimed t (z, f)) := by
  have h1 := h.layout.base z
  have h2 := h.layout.stop z
  have h3 := h.layout.total z
  have hpfn : 4096 * f / pageSize = f := by simp only [pageSize]; omega
  simp only [Pmm.freeClaimed, Pmm.freeEntryPage, hpfn]
  by_cases h0 : (t.zones z).totalPages = 0
  · rw [if_pos h0]
    exact h
  by_cases hin : f < (t.zones z).basePfn ∨ f ≥ (t.zones z).endPfn
  · rw [if_neg h0, if_pos hin]
    exact h
  rw [if_neg h0, if_neg hin]
  refine Clean.update h rfl rfl rfl (fun _ _ _ ha => ha) (fun idx hidx hz hu => ?_) fun hz => ?_
  · simp only [MemoryZone.used, bitmapTest_clear, Bool.and_eq_false_iff, Bool.not_eq_false',
      decide_eq_true_eq] at hu
    rcases hu with hu | rfl
    · exact h.clear z hz idx hidx hu
    · rw [h1, Nat.add_sub_cancel' (by omega)]
      exact hf
  · have hspan : 0 < (s₁.zones z).span := by
      simp only [MemoryZone.span]
      omega
    exact absurd hz (bitmapBytes_ne (by omega) hspan)

/-- Reserving a frame takes it out. -/
theorem Clean.reservePage {k : ℕ}
    (h : Clean s₁ (fun z f => avail z f ∧ ¬ (z = .normal ∧ f < k)) t) :
    Clean s₁ (fun z f => avail z f ∧ ¬ (z = .normal ∧ f < k + 1)) (reservePage t k) := by
  have h1 := h.layout.base .normal
  simp only [Pmm.reservePage]
  by_cases hin : k ≥ (t.zones .normal).basePfn
  · rw [if_pos hin]
    refine Clean.update h rfl rfl rfl (fun w f hw ha => ⟨ha.1, fun hc => hw hc.1⟩)
      (fun idx hidx hz hu => ?_) fun hz => ?_
    · simp only [MemoryZone.used, bitmapTest_set, Bool.or_eq_false_iff,
        decide_eq_false_iff_not] at hu
      obtain ⟨ha, hk⟩ := h.clear .normal hz idx hidx hu.2
      exact ⟨ha, fun hc => hk ⟨rfl, by omega⟩⟩
    · simp [h.idle .normal hz]
  · rw [if_neg hin]
    refine h.mono fun w _ idx _ ha => ⟨ha.1, ?_⟩
    rintro ⟨rfl, hlt⟩
    omega

/-- **What `pmm_init` leaves to hand out, on any map**: claimed frames,
less those the reservation takes from `ZONE_NORMAL`. -/
theorem clean_init (mmap : List MmapEntry) : Clean (mmap.foldl addEntry emptyState)
    (fun z f => (z, f) ∈ claimed mmap ∧ ¬ (z = .normal ∧ f < 0x1000)) (pmmInit mmap) := by
  have h1 := firstPass mmap
  change Clean _ _ (reserveKernel (mmap.foldl freeEntry
    (fillBitmaps (mmap.foldl addEntry emptyState))))
  generalize mmap.foldl addEntry emptyState = s₁ at h1 ⊢
  have h2 : Clean s₁ (fun z f => (z, f) ∈ claimed mmap)
      (mmap.foldl freeEntry (fillBitmaps s₁)) := by
    rw [foldl_freeEntry]
    refine List.foldlRecOn (motive := Clean s₁ fun z f => (z, f) ∈ claimed mmap) _ _
      (clean_fill h1 _) fun t ht c hc => ?_
    exact ht.freeClaimed hc
  generalize mmap.foldl freeEntry (fillBitmaps s₁) = t at h2 ⊢
  have h3 : ∀ n, Clean s₁ (fun z f => (z, f) ∈ claimed mmap ∧ ¬ (z = .normal ∧ f < n))
      ((List.range n).foldl reservePage t) := by
    intro n
    induction n with
    | zero => exact h2.mono fun z _ idx _ ha => ⟨ha, fun hc => Nat.not_lt_zero _ hc.2⟩
    | succ n ih =>
      rw [List.range_succ, List.foldl_append]
      exact ih.reservePage
  refine (h3 _).mono fun z _ idx hidx ha => ⟨ha.1, ?_⟩
  rintro ⟨rfl, hlt⟩
  refine ha.2 ⟨rfl, ?_⟩
  rw [h2.layout.stop]
  simp only [MemoryZone.span] at hidx
  omega

/-! ## Allocation -/

theorem Clean.mark {pfn n : ℕ} (h : Clean s₁ avail t) (hz : s₁.bitmapBytes z ≠ 0)
    (hrun : (t.zones z).FreeRun pfn n) :
    Clean s₁ avail (t.setZone z ((t.zones z).mark pfn n)) := by
  refine Clean.update h rfl rfl rfl (fun _ _ _ ha => ha) (fun idx hidx _ hu => ?_)
    fun h0 => absurd h0 hz
  refine h.clear z hz idx hidx ?_
  rw [← Bool.not_eq_true, mark_used hrun.base_le, not_or] at hu
  simpa using hu.1

theorem Sim.agrees (h : Sim s₁ s t) (hz : s₁.bitmapBytes z ≠ 0) :
    ((s.zones z).view s.mem).Agrees (t.zones z) := by
  refine ⟨(h.like z).base, (h.like z).stop, fun idx hidx => ?_⟩
  have hspan : ((s.zones z).view s.mem).span = (s₁.zones z).span :=
    (h.like z).span.trans (h.layout.span z)
  rw [hspan] at hidx
  rw [← h.bits z hz idx hidx]
  exact bitmapTest_at ..

/-- The state after a block was marked and zeroed. -/
def Phys.take (s : Phys) (z : ZoneIdx) (pfn n : ℕ) : Phys :=
  { s.setZone z { s.zones z with freePages := sub64 (s.zones z).freePages n } with
    mem := ((List.range n).foldl (fun mem j =>
      memBitmapSet mem (s.zones z).bitmap (pfn + j - (s.zones z).basePfn)) s.mem).fill
        (pfn * pageSize) (n * pageSize) 0 }

theorem Phys.lockedAlloc_eq (r : Request) (z : ZoneIdx) (s : Phys) : s.lockedAlloc r z =
    (r.search ((s.zones z).view s.mem)).map fun pfn => (pfn, s.take z pfn r.count) := by
  rw [Phys.lockedAlloc]
  cases r.search ((s.zones z).view s.mem) <;> rfl

/-- The frames of a block as bits of memory. -/
def InBlock (pfn n k : ℕ) : Prop :=
  8 * (pfn * pageSize) ≤ k ∧ k < 8 * (pfn * pageSize + n * pageSize)

instance {pfn n k : ℕ} : Decidable (InBlock pfn n k) := inferInstanceAs (Decidable (_ ∧ _))

/-- **The memory after a block was taken**: its own bits are zero, and
elsewhere the bits that stand for its frames are set. -/
theorem Phys.bit_take {pfn n k : ℕ} (hb : (s.zones z).basePfn ≤ pfn) :
    (s.take z pfn n).mem.bit k =
      if InBlock pfn n k then false
      else decide (8 * (s.zones z).bitmap + (pfn - (s.zones z).basePfn) ≤ k ∧
        k < 8 * (s.zones z).bitmap + (pfn - (s.zones z).basePfn) + n) || s.mem.bit k := by
  rw [Phys.take]
  by_cases hin : InBlock pfn n k
  · rw [if_pos hin]
    exact ByteMem.bit_fill_zero hin
  · rw [if_neg hin, ByteMem.bit_fill_of_not_mem hin]
    refine ByteMem.bit_foldl_set (fun m j k => ?_) s.mem n k
    rw [bit_memBitmapSet]
    congr 1
    exact decide_eq_decide.2 (by omega)

/-- **Marking and zeroing a run keeps the simulation**, where no frame of
the run is under a bitmap. -/
theorem Sim.take {pfn n : ℕ} (h : Sim s₁ s t) (hz : s₁.bitmapBytes z ≠ 0)
    (hrun : (t.zones z).FreeRun pfn n)
    (hoff : ∀ f, pfn ≤ f → f < pfn + n → ∀ w, ¬ s₁.Backs w f) :
    Sim s₁ (s.take z pfn n) (t.setZone z ((t.zones z).mark pfn n)) := by
  have hb := (h.like z).base
  have hle := hrun.base_le
  have hend := hrun.le_end
  have hlb := h.layout.base z
  have hle' := h.layout.stop z
  have hbit := fun k => Phys.bit_take (k := k) (n := n) (hb.trans_le hle)
  -- the zeroed frames are under no bitmap
  have hzero : ∀ w, s₁.bitmapBytes w ≠ 0 → ∀ idx < (s₁.zones w).span,
      ¬ InBlock pfn n (8 * (s.zones w).bitmap + idx) := by
    rintro w hw idx hidx ⟨h1, h2⟩
    have hpages := span_le_pages hw
    rw [h.placed w hw] at h1 h2
    simp only [pageSize] at h1 h2
    refine hoff (0x100 + bitmapPos s₁.bitmapBytes w + idx / 32768) (by omega) (by omega) w
      ⟨hw, by omega, by omega⟩
  refine Sim.update h rfl rfl rfl ?_ (fun _ idx hidx => ?_) fun w hw hwb idx hidx => ?_
  · rw [mark_freePages, (h.like z).free]
  · refine (hbit _).trans ?_
    rw [if_neg (hzero z hz idx hidx), h.bits z hz idx hidx, hb,
      Bool.eq_iff_iff, mark_used hle, Bool.or_eq_true, decide_eq_true_eq, or_comm]
    refine or_congr_right ?_
    omega
  · refine (hbit _).trans ?_
    rw [if_neg (hzero w hwb idx hidx)]
    have hne : ¬ (8 * (s.zones z).bitmap + (pfn - (s.zones z).basePfn) ≤
        8 * (s.zones w).bitmap + idx ∧ 8 * (s.zones w).bitmap + idx <
        8 * (s.zones z).bitmap + (pfn - (s.zones z).basePfn) + n) := by
      intro hin
      refine h.bit_ne hwb hz hw hidx
        (j := 8 * (s.zones w).bitmap + idx - 8 * (s.zones z).bitmap) ?_ (by omega)
      simp only [MemoryZone.span]
      omega
    rw [decide_eq_false hne, Bool.false_or]

/-- What an allocation may return: `NULL`, or the frames of a run that may
be handed out. -/
def Granted (avail : ZoneIdx → ℕ → Prop) (n p : ℕ) : Prop :=
  p = 0 ∨ ∃ z pfn, p = physToVirt (pfn * pageSize) ∧ pfn < 2 ^ 52 ∧
    ∀ f, pfn ≤ f → f < pfn + n → avail z f

/-- **One allocation in step.** The zones are tried in the same order with
the same gates; the one that serves the request has a bitmap, finds the
same run in both, and the run is off the bitmaps. -/
theorem Sim.allocFrom (h : Sim s₁ s t) (hc : Clean s₁ avail t)
    (hoff : ∀ z f, avail z f → ∀ w, ¬ s₁.Backs w f) (hend : ∀ z, (s₁.zones z).endPfn < 2 ^ 52)
    (hr : 0 < r.count) (zs : List ZoneIdx) :
    Sim s₁ (s.allocFrom r zs).1 (allocFrom r zs t).1 ∧ Clean s₁ avail (allocFrom r zs t).1 ∧
      (s.allocFrom r zs).2 = (allocFrom r zs t).2 ∧ Granted avail r.count (s.allocFrom r zs).2 := by
  induction zs with
  | nil => exact ⟨h, hc, rfl, Or.inl rfl⟩
  | cons z zs ih =>
    simp only [Phys.allocFrom, Pmm.allocFrom, (h.like z).free]
    by_cases hskip : r.skips (t.zones z).freePages = true
    · simp only [if_pos hskip]
      exact ih
    · simp only [if_neg hskip]
      have hz : s₁.bitmapBytes z ≠ 0 := by
        intro h0
        rw [hc.idle z h0] at hskip
        cases r with
        | page => exact hskip rfl
        | pages count => exact hskip (decide_eq_true hr)
        | huge => exact hskip rfl
      simp only [Phys.lockedAlloc_eq, Pmm.lockedAlloc, Request.search_congr (h.agrees hz) r]
      cases hs : r.search (t.zones z) with
      | none => exact ih
      | some pfn =>
        have hrun := Request.search_freeRun hs
        have hfrom : ∀ f, pfn ≤ f → f < pfn + r.count → avail z f := by
          intro f h1 h2
          have hb := hrun.base_le
          have he := hrun.le_end
          rw [h.layout.base] at hb
          rw [h.layout.stop] at he
          have hf := hc.clear z hz (f - (s₁.zones z).basePfn)
            (by simp only [MemoryZone.span]; omega)
            (by rw [← h.layout.base]; exact hrun.clear f h1 h2)
          rwa [Nat.add_sub_cancel' (by omega)] at hf
        refine ⟨h.take hz hrun fun f h1 h2 => hoff z f (hfrom f h1 h2), hc.mark hz hrun, rfl,
          Or.inr ⟨z, pfn, rfl, ?_, hfrom⟩⟩
        have he := hrun.le_end
        have := hend z
        rw [h.layout.stop] at he
        omega

/-- **Every allocator in step**, with one answer. -/
theorem Sim.alloc (h : Sim s₁ s t) (hc : Clean s₁ avail t)
    (hoff : ∀ z f, avail z f → ∀ w, ¬ s₁.Backs w f) (hend : ∀ z, (s₁.zones z).endPfn < 2 ^ 52)
    (r : Request) : Sim s₁ (s.alloc r).1 (r.exec t).1 ∧ Clean s₁ avail (r.exec t).1 ∧
      (s.alloc r).2 = (r.exec t).2 ∧ Granted avail r.count (s.alloc r).2 := by
  cases r with
  | page => exact h.allocFrom (r := .page) hc hoff hend Nat.one_pos allocOrder
  | pages count =>
    simp only [Phys.alloc, Request.exec, pmmAllocPages]
    by_cases h0 : count = 0
    · simp only [if_pos h0]
      exact ⟨h, hc, trivial, Or.inl rfl⟩
    by_cases h1 : count = 1
    · subst h1
      simp only [if_neg h0, if_true]
      exact h.allocFrom (r := .page) hc hoff hend Nat.one_pos allocOrder
    · simp only [if_neg h0, if_neg h1]
      exact h.allocFrom (r := .pages count) hc hoff hend (Nat.pos_of_ne_zero h0) allocOrder
  | huge => exact h.allocFrom (r := .huge) hc hoff hend (by decide) allocOrder

/-! ## The bitmaps, read off the map -/

/-- The entries that go to a zone. -/
def zoneEntries (mmap : List MmapEntry) (z : ZoneIdx) : List MmapEntry :=
  mmap.filter fun e => e.Contributes ∧ e.zone = z

/-- The frames from the first to the last of a zone's entries. -/
def mapSpan (mmap : List MmapEntry) (z : ZoneIdx) : ℕ :=
  ((zoneEntries mmap z).map MmapEntry.hi).max?.getD 0 -
    ((zoneEntries mmap z).map MmapEntry.lo).min?.getD (2 ^ 64 - 1)

/-- The bytes of a zone's bitmap. -/
def mapBytes (mmap : List MmapEntry) (z : ZoneIdx) : ℕ :=
  if pagesIn z mmap % 2 ^ 64 = 0 then 0 else bitmapSize (mapSpan mmap z)

/-- **The frames under a zone's bitmap**, read off the map. -/
def BitmapFrame (mmap : List MmapEntry) (z : ZoneIdx) (f : ℕ) : Prop :=
  mapBytes mmap z ≠ 0 ∧ 0x100 + bitmapPos (mapBytes mmap) z ≤ f ∧
    f < 0x100 + bitmapPos (mapBytes mmap) z + bitmapPages (mapBytes mmap z)

/-- The first pass computes the span of the map. -/
theorem FirstPass.span_eq (h : FirstPass mmap s₁) (z : ZoneIdx) :
    (s₁.zones z).span = mapSpan mmap z := by
  have hmem : ∀ e, e ∈ zoneEntries mmap z ↔ e ∈ mmap ∧ e.Contributes ∧ e.zone = z := by
    intro e
    simp [zoneEntries]
  have hcov : ∀ e ∈ zoneEntries mmap z,
      (s₁.zones z).basePfn ≤ e.lo ∧ e.hi ≤ (s₁.zones z).endPfn := by
    intro e he
    obtain ⟨hin, hc, rfl⟩ := (hmem e).1 he
    exact h.covers e hin hc
  by_cases hnil : zoneEntries mmap z = []
  · -- no entry went to the zone: the range is the empty one
    have hstop : (s₁.zones z).endPfn = 0 := by
      rcases h.end_from z with he | ⟨e, he, hc, hz, -⟩
      · exact he
      · have hin := (hmem e).2 ⟨he, hc, hz⟩
        rw [hnil] at hin
        cases hin
    rw [mapSpan, hnil, MemoryZone.span, hstop]
    simp
  · obtain ⟨e₀, he₀⟩ := List.exists_mem_of_ne_nil _ hnil
    have hc₀ := hcov e₀ he₀
    have hlt₀ := ((hmem e₀).1 he₀).2.1.2
    have hhi₀ := e₀.hi_lt
    have hbase : ((zoneEntries mmap z).map MmapEntry.lo).min? = some (s₁.zones z).basePfn := by
      rw [List.min?_eq_some_iff]
      constructor
      · rcases h.base_from z with hb | ⟨e, he, hc, hz, hb⟩
        · omega
        · exact List.mem_map.2 ⟨e, (hmem e).2 ⟨he, hc, hz⟩, hb⟩
      · intro x hx
        obtain ⟨e, he, rfl⟩ := List.mem_map.1 hx
        exact (hcov e he).1
    have hstop : ((zoneEntries mmap z).map MmapEntry.hi).max? = some (s₁.zones z).endPfn := by
      rw [List.max?_eq_some_iff]
      constructor
      · rcases h.end_from z with hb | ⟨e, he, hc, hz, hb⟩
        · omega
        · exact List.mem_map.2 ⟨e, (hmem e).2 ⟨he, hc, hz⟩, hb⟩
      · intro x hx
        obtain ⟨e, he, rfl⟩ := List.mem_map.1 hx
        exact (hcov e he).2
    rw [mapSpan, hbase, hstop]
    rfl

theorem FirstPass.bitmapBytes_eq (h : FirstPass mmap s₁) : s₁.bitmapBytes = mapBytes mmap := by
  funext z
  rw [State.bitmapBytes, mapBytes, h.total, h.span_eq]

/-! ## No run of allocations hands out reserved memory -/

/-- The frames under a bitmap, as the zone's pointer has them. -/
def PhysZone.Backs (zone : PhysZone) (f : ℕ) : Prop :=
  zone.bitmap ≠ 0 ∧ zone.bitmap / pageSize ≤ f ∧
    f < zone.bitmap / pageSize + bitmapPages (bitmapSize zone.span)

/-- **The map offers no reserved frame**: every frame it claims for a
populated zone, unless the reservation takes it from `ZONE_NORMAL`, is
above 16 MB and off the pages of the bitmaps. -/
def OffersUnreserved (mmap : List MmapEntry) : Prop :=
  ∀ z f, (z, f) ∈ claimed mmap → mapBytes mmap z ≠ 0 → ¬ (z = .normal ∧ f < 0x1000) →
    0x1000 ≤ f ∧ ∀ w, ¬ BitmapFrame mmap w f

/-- The state after a run of allocations. -/
def Phys.afterAllocs (s : Phys) (rs : List Request) : Phys :=
  runFrom (fun s r => (s.alloc r).1) s rs

instance {f : ℕ} : Decidable (BitmapFrame mmap z f) := inferInstanceAs (Decidable (_ ∧ _ ∧ _))

/-- Two pages from 16 MB on. -/
def highMap : List MmapEntry := [⟨0x1000000, 0x2000, 1⟩]

theorem highMap_ok : MapOk highMap where
  disjoint := List.pairwise_singleton _ _
  below e he _ := by
    rw [highMap, List.mem_singleton] at he
    subst he
    decide

theorem highMap_offersUnreserved : OffersUnreserved highMap := by
  have hclaimed : claimed highMap = [(.dma32, 0x1000), (.dma32, 0x1001)] := by decide
  intro z f hf _ _
  rw [hclaimed] at hf
  simp only [List.mem_cons, Prod.mk.injEq, List.not_mem_nil, or_false] at hf
  rcases hf with ⟨rfl, rfl⟩ | ⟨rfl, rfl⟩ <;> refine ⟨by decide, fun w => ?_⟩ <;>
    cases w <;> decide

/-- Two pages from 1 MB on: they go to `ZONE_DMA`, which the reservation
does not look at. -/
def lowMap : List MmapEntry := [⟨0x100000, 0x2000, 1⟩]

end Pmm

end Kos
