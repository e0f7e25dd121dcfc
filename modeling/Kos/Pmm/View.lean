import Kos.Pmm.Accounting
import Kos.Pmm.Backing
import Kos.Pmm.FirstFit
/-!
# Pmm — the bitmaps read out of physical memory

The model with private bitmaps is a view of the one over physical
memory: every bitmap is read out of the bytes at its pointer. A free
commutes with the view, since the one bit it clears is clear already. An
allocation does not always: the block it marks is zeroed afterwards, and
a bitmap, or a part of one, may lie in the block. `Phys.Spares` is the
exact condition. Where it holds an allocation is first fit, and where it
does not the bits of frames in use are lost.
-/

namespace Kos

namespace Pmm

variable {s : Phys} {t u : State} {z w : ZoneIdx} {pfn n count : ℕ} {mmap : List MmapEntry}
  {r : Request}

/-! ## The view -/

/-- **The state with its bitmaps read out of memory.** -/
def Phys.view (s : Phys) : State where
  zones := fun z => (s.zones z).view s.mem
  totalSystemPages := s.totalSystemPages

/-- The bit of memory that stands for an index of a zone. -/
def PhysZone.bitAt (zone : PhysZone) (idx : ℕ) : ℕ := 8 * zone.bitmap + idx

@[simp] theorem Phys.view_basePfn : (s.view.zones z).basePfn = (s.zones z).basePfn := rfl

@[simp] theorem Phys.view_freePages : (s.view.zones z).freePages = (s.zones z).freePages := rfl

@[simp] theorem Phys.view_span : (s.view.zones z).span = (s.zones z).span := rfl

theorem Phys.view_used (s : Phys) (z : ZoneIdx) (idx : ℕ) :
    (s.view.zones z).used idx = s.mem.bit ((s.zones z).bitAt idx) := bitmapTest_at ..

/-- The view after one zone was changed, in memory that stays. -/
theorem Phys.view_setZone (s : Phys) (z : ZoneIdx) (zone : PhysZone) :
    (s.setZone z zone).view = s.view.setZone z (zone.view s.mem) := by
  have hzones : (s.setZone z zone).view.zones = (s.view.setZone z (zone.view s.mem)).zones := by
    funext w
    by_cases hw : w = z
    · subst hw
      simp only [Phys.view, Phys.setZone, State.setZone, Function.update_self]
    · simp only [Phys.view, Phys.setZone, State.setZone, Function.update_of_ne hw]
  exact congrArg (fun zones => State.mk zones s.totalSystemPages) hzones

/-! ## States no call tells apart -/

/-- **Equal ranges and counters, and equal bits inside the ranges.** What
a bitmap has past the end of its zone is nobody's business. -/
structure State.Agrees (t u : State) : Prop where
  layout : SameLayout t u
  free : ∀ z, (t.zones z).freePages = (u.zones z).freePages
  bits : SameBits t u

theorem State.Agrees.refl (t : State) : t.Agrees t :=
  ⟨SameLayout.refl t, fun _ => rfl, fun _ _ _ => rfl⟩

/-- The zones of the two. -/
theorem State.Agrees.zone (h : t.Agrees u) (z : ZoneIdx) : (t.zones z).Agrees (u.zones z) :=
  ⟨h.layout.base z, h.layout.stop z, h.bits z⟩

/-- The books are kept in both. -/
theorem Accounted.congr (h : Accounted mmap u) (hag : t.Agrees u) : Accounted mmap t := by
  refine ⟨hag.layout.trans h.layout, fun z => ?_, fun z => ?_⟩
  · rw [hag.free, h.counted, hag.layout.span]
    exact freeCount_congr fun idx hidx => (hag.bits z idx (by rwa [hag.layout.span])).symm
  · rw [hag.free, hag.layout.total]
    exact h.free_le z

/-- **What the simulation says of the view**: it is the state with private
bitmaps, if a zone without a bitmap has no frames. -/
theorem Sim.view_agrees {s₁ : State} (h : Sim s₁ s t)
    (hempty : ∀ z, s₁.bitmapBytes z = 0 → (s₁.zones z).span = 0) : s.view.Agrees t := by
  refine ⟨⟨fun z => (h.like z).base, fun z => (h.like z).stop, fun z => (h.like z).total, h.system⟩,
    fun z => (h.like z).free, fun z idx hidx => ?_⟩
  have hspan : (s.zones z).span = (s₁.zones z).span := (h.like z).span.trans (h.layout.span z)
  rw [Phys.view_span, hspan] at hidx
  have hz : s₁.bitmapBytes z ≠ 0 := fun h0 => by
    rw [hempty z h0] at hidx
    exact absurd hidx (Nat.not_lt_zero idx)
  rw [Phys.view_used]
  exact h.bits z hz idx hidx

/-- A zone without a bitmap has no frames. -/
theorem MapOk.span_eq_zero (hok : MapOk mmap)
    (hz : (mmap.foldl addEntry emptyState).bitmapBytes z = 0) :
    ((mmap.foldl addEntry emptyState).zones z).span = 0 := by
  have hfirst := firstPass mmap
  generalize mmap.foldl addEntry emptyState = s₁ at hfirst hz ⊢
  by_contra hspan
  have htotal : (s₁.zones z).totalPages = 0 := by
    by_contra ht
    exact bitmapBytes_ne ht (Nat.pos_of_ne_zero hspan) hz
  have hle := hok.pagesIn_le z
  rw [hfirst.total, Nat.mod_eq_of_lt (by omega), pagesIn_eq, List.countP_eq_zero] at htotal
  rcases hfirst.end_from z with hend | ⟨e, he, hc, hez, -⟩
  · rw [MemoryZone.span, hend, Nat.zero_sub] at hspan
    exact hspan rfl
  · exact htotal (z, e.lo) (mem_claimed.2 ⟨e, he, hc.1, hez, le_rfl, hc.2⟩) (by simp)

/-- **`pmm_init` on physical memory**, as the model with private bitmaps
has it. -/
theorem MapOk.view_agrees (hok : MapOk mmap) {mem : ByteMem} (hs : physInit mem mmap = some s) :
    s.view.Agrees (pmmInit mmap) :=
  (sim_init hs).view_agrees fun _ => hok.span_eq_zero

/-! ## Frees -/

/-- A section's outcome, read in another state. -/
def FreeOutcome.map {σ τ : Type} (f : σ → τ) : FreeOutcome σ → FreeOutcome τ
  | .notHere => .notHere
  | .doubleFree => .doubleFree
  | .freed s => .freed (f s)

/-- **The locked section of a free commutes with the view.** -/
theorem Phys.lockedFree_view (s : Phys) (z : ZoneIdx) (pfn : ℕ) :
    Pmm.lockedFree z pfn s.view = (s.lockedFree z pfn).map Phys.view := by
  rw [Pmm.lockedFree, Phys.lockedFree]
  by_cases hin : (s.zones z).basePfn ≤ pfn ∧ pfn < (s.zones z).endPfn
  · have hin' : (s.view.zones z).basePfn ≤ pfn ∧ pfn < (s.view.zones z).endPfn := hin
    rw [if_pos hin, if_pos hin']
    by_cases hidx : pfn - (s.zones z).basePfn ≥ (s.zones z).span
    · have hidx' : pfn - (s.view.zones z).basePfn ≥ (s.view.zones z).span := hidx
      rw [if_pos hidx, if_pos hidx']
      rfl
    have hidx' : ¬ pfn - (s.view.zones z).basePfn ≥ (s.view.zones z).span := hidx
    rw [if_neg hidx, if_neg hidx']
    by_cases hu : bitmapTest (bitmapAt s.mem (s.zones z).bitmap) (pfn - (s.zones z).basePfn) = true
    · have hu' : (s.view.zones z).used (pfn - (s.view.zones z).basePfn) = true := hu
      rw [if_pos hu, if_pos hu']
      rfl
    · -- the bit that is cleared is clear
      have hu' : ¬ (s.view.zones z).used (pfn - (s.view.zones z).basePfn) = true := hu
      rw [Bool.not_eq_true] at hu
      have hview : bitmapClear (s.view.zones z).bitmap (pfn - (s.view.zones z).basePfn) =
          (s.view.zones z).bitmap := bitmapClear_of_clear hu
      rw [if_neg hu', if_neg (by rw [hu]; decide), memBitmapClear_of_clear hu, hview]
      exact congrArg FreeOutcome.freed (Phys.view_setZone s z
        { s.zones z with freePages := add64 (s.zones z).freePages 1 }).symm
  · have hin' : ¬ ((s.view.zones z).basePfn ≤ pfn ∧ pfn < (s.view.zones z).endPfn) := hin
    rw [if_neg hin, if_neg hin']
    rfl

/-- A free that goes through changes no byte and no pointer. -/
theorem Phys.lockedFree_cases {s' : Phys} (h : s.lockedFree z pfn = .freed s') :
    FreeHits s.view z pfn ∧
      s' = s.setZone z { s.zones z with freePages := add64 (s.zones z).freePages 1 } := by
  have hview := Phys.lockedFree_view s z pfn
  rw [h] at hview
  have hhit := (Pmm.lockedFree_cases hview).1
  refine ⟨hhit, ?_⟩
  have hclear :
      bitmapTest (bitmapAt s.mem (s.zones z).bitmap) (pfn - (s.zones z).basePfn) = false :=
    hhit.2.2
  simp only [Phys.lockedFree, hclear, memBitmapClear_of_clear hclear] at h
  split at h
  · split at h
    · cases h
    · exact (FreeOutcome.freed.inj h).symm
  · cases h

/-- **`pmm_free_page` commutes with the view.** -/
theorem Phys.freePage_view (s : Phys) (addr : ℕ) :
    (s.freePage addr).1.view = (pmmFreePage s.view addr).1 := by
  have hloop : ∀ zs, (s.freeFrom addr zs).1.view = (Pmm.freeFrom addr zs s.view).1 := by
    intro zs
    induction zs with
    | nil => rfl
    | cons z zs ih =>
      rw [Phys.freeFrom, Pmm.freeFrom, Phys.lockedFree_view]
      cases s.lockedFree z (addr / pageSize) with
      | notHere => exact ih
      | doubleFree => exact ih
      | freed s' => rfl
  rw [Phys.freePage, pmmFreePage]
  split
  · rfl
  · exact hloop freeOrder

/-- **`pmm_free_pages` commutes with the view.** -/
theorem Phys.freePages_view (s : Phys) (addr count : ℕ) :
    (s.freePages addr count).view = pmmFreePages s.view addr count := by
  rw [Phys.freePages, pmmFreePages]
  split
  · rfl
  · exact List.foldl_rel (r := fun (s : Phys) t => s.view = t) rfl fun i _ s t h => by
      rw [← h, Phys.freePage_view]

/-! ## Allocations -/

/-- **Taking a block leaves the bitmaps alone**, but for its own bits: the
bytes it zeroes hold no bit of a frame in use and none of the block, and
no other zone has a bit where the bits of the block are. -/
structure Phys.Spares (s : Phys) (z : ZoneIdx) (pfn n : ℕ) : Prop where
  zeroed : ∀ w idx, idx < (s.zones w).span → InBlock pfn n ((s.zones w).bitAt idx) →
    s.mem.bit ((s.zones w).bitAt idx) = false ∧
      ¬ (w = z ∧ pfn ≤ (s.zones z).basePfn + idx ∧ (s.zones z).basePfn + idx < pfn + n)
  marked : ∀ w, w ≠ z → ∀ idx < (s.zones w).span, ∀ f, pfn ≤ f → f < pfn + n →
    (s.zones w).bitAt idx ≠ (s.zones z).bitAt (f - (s.zones z).basePfn)

/-- Nothing but a counter changes in the zones. -/
theorem Phys.take_zones (s : Phys) (z : ZoneIdx) (pfn n : ℕ) : (s.take z pfn n).zones =
    (s.setZone z { s.zones z with freePages := sub64 (s.zones z).freePages n }).zones := rfl

theorem Phys.take_layout (s : Phys) (z : ZoneIdx) (pfn n : ℕ) :
    SameLayout (s.take z pfn n).view s.view ∧
      ∀ w, ((s.take z pfn n).zones w).bitmap = (s.zones w).bitmap := by
  have hzone : ∀ w, ((s.take z pfn n).zones w).basePfn = (s.zones w).basePfn ∧
      ((s.take z pfn n).zones w).endPfn = (s.zones w).endPfn ∧
      ((s.take z pfn n).zones w).totalPages = (s.zones w).totalPages ∧
      ((s.take z pfn n).zones w).bitmap = (s.zones w).bitmap := by
    intro w
    rw [Phys.take_zones]
    by_cases hw : w = z
    · rw [hw, Phys.setZone_self]
      exact ⟨rfl, rfl, rfl, rfl⟩
    · rw [Phys.setZone_of_ne hw]
      exact ⟨rfl, rfl, rfl, rfl⟩
  exact ⟨⟨fun w => (hzone w).1, fun w => (hzone w).2.1, fun w => (hzone w).2.2.1, rfl⟩,
    fun w => (hzone w).2.2.2⟩

/-- The counters after a block was taken. -/
theorem Phys.take_free (s : Phys) (z : ZoneIdx) (pfn n : ℕ) (w : ZoneIdx) :
    ((s.take z pfn n).zones w).freePages =
      ((s.view.setZone z ((s.view.zones z).mark pfn n)).zones w).freePages := by
  rw [Phys.take_zones]
  by_cases hw : w = z
  · rw [hw, Phys.setZone_self, State.setZone_self, mark_freePages, Phys.view_freePages]
  · rw [Phys.setZone_of_ne hw, State.setZone_of_ne hw, Phys.view_freePages]

/-- **The bits after a block was taken.** -/
theorem Phys.take_used (hb : (s.zones z).basePfn ≤ pfn) (w : ZoneIdx) (idx : ℕ) :
    ((s.take z pfn n).view.zones w).used idx =
      if InBlock pfn n ((s.zones w).bitAt idx) then false
      else decide ((s.zones z).bitAt (pfn - (s.zones z).basePfn) ≤ (s.zones w).bitAt idx ∧
        (s.zones w).bitAt idx < (s.zones z).bitAt (pfn - (s.zones z).basePfn) + n) ||
        (s.view.zones w).used idx := by
  rw [Phys.view_used, PhysZone.bitAt, (Phys.take_layout s z pfn n).2, Phys.bit_take hb,
    Phys.view_used]
  rfl

/-- The bits of the block as indices of its zone. -/
theorem PhysZone.bitAt_mem_iff {zone : PhysZone} {idx : ℕ} (hb : zone.basePfn ≤ pfn) :
    zone.bitAt (pfn - zone.basePfn) ≤ zone.bitAt idx ∧
      zone.bitAt idx < zone.bitAt (pfn - zone.basePfn) + n ↔
    pfn ≤ zone.basePfn + idx ∧ zone.basePfn + idx < pfn + n := by
  simp only [PhysZone.bitAt]
  omega

/-- The bits of private bitmaps after the block was marked. -/
theorem Phys.mark_used (hb : (s.zones z).basePfn ≤ pfn) (w : ZoneIdx) (idx : ℕ) :
    ((s.view.setZone z ((s.view.zones z).mark pfn n)).zones w).used idx =
      (decide (w = z ∧ pfn ≤ (s.zones z).basePfn + idx ∧ (s.zones z).basePfn + idx < pfn + n) ||
        (s.view.zones w).used idx) := by
  by_cases hw : w = z
  · subst hw
    rw [State.setZone_self, Bool.eq_iff_iff, Pmm.mark_used hb, Bool.or_eq_true, decide_eq_true_eq,
      or_comm]
    refine or_congr_left ?_
    simp only [Phys.view_basePfn, true_and]
    omega
  · rw [State.setZone_of_ne hw, decide_eq_false (fun hc => hw hc.1), Bool.false_or]

/-- A block that spares the bitmaps sets its own bits and no others. -/
theorem Phys.Spares.take_agrees (hrun : (s.view.zones z).FreeRun pfn n) (h : s.Spares z pfn n) :
    (s.take z pfn n).view.Agrees (s.view.setZone z ((s.view.zones z).mark pfn n)) := by
  obtain ⟨hzeroed, hmarked⟩ := h
  have hb : (s.zones z).basePfn ≤ pfn := hrun.base_le
  have hlay : SameLayout (s.view.setZone z ((s.view.zones z).mark pfn n)) s.view :=
    SameLayout.setZone mark_basePfn mark_endPfn mark_totalPages
  have hlay' := (Phys.take_layout s z pfn n).1
  refine ⟨hlay'.trans hlay.symm, Phys.take_free s z pfn n, fun w idx hidx => ?_⟩
  have hidx : idx < (s.zones w).span := by
    rwa [hlay'.span w] at hidx
  rw [Phys.take_used hb, Phys.mark_used hb]
  by_cases hin : InBlock pfn n ((s.zones w).bitAt idx)
  · obtain ⟨hclear, hout⟩ := hzeroed w idx hidx hin
    rw [if_pos hin, decide_eq_false hout, Bool.false_or, Phys.view_used, hclear]
  · rw [if_neg hin]
    congr 1
    refine decide_eq_decide.2 ?_
    by_cases hw : w = z
    · subst hw
      rw [PhysZone.bitAt_mem_iff hb]
      exact ⟨fun h => ⟨rfl, h⟩, fun h => h.2⟩
    · refine ⟨fun hc => ?_, fun hc => absurd hc.1 hw⟩
      -- the frame of the block whose bit this would be
      refine absurd ?_ (hmarked w hw idx hidx
        (pfn + ((s.zones w).bitAt idx - (s.zones z).bitAt (pfn - (s.zones z).basePfn)))
        (Nat.le_add_right ..) (by omega))
      simp only [PhysZone.bitAt] at hc ⊢
      omega

/-- **An allocation is what the model with private bitmaps has** exactly
if its block spares the bitmaps. -/
theorem Phys.take_agrees_iff (hrun : (s.view.zones z).FreeRun pfn n) :
    (s.take z pfn n).view.Agrees (s.view.setZone z ((s.view.zones z).mark pfn n)) ↔
      s.Spares z pfn n := by
  refine ⟨fun hag => ?_, Phys.Spares.take_agrees hrun⟩
  have hb : (s.zones z).basePfn ≤ pfn := hrun.base_le
  have he : pfn + n ≤ (s.zones z).endPfn := hrun.le_end
  have hspan : ∀ w, ((s.take z pfn n).view.zones w).span = (s.zones w).span :=
    (Phys.take_layout s z pfn n).1.span
  have hbits : ∀ w idx, idx < (s.zones w).span → _ := fun w idx hidx =>
    hag.bits w idx ((hspan w).symm ▸ hidx)
  simp only [Phys.take_used hb, Phys.mark_used hb] at hbits
  have hzeroed : ∀ w idx, idx < (s.zones w).span → InBlock pfn n ((s.zones w).bitAt idx) →
      s.mem.bit ((s.zones w).bitAt idx) = false ∧
        ¬ (w = z ∧ pfn ≤ (s.zones z).basePfn + idx ∧ (s.zones z).basePfn + idx < pfn + n) := by
    intro w idx hidx hin
    have heq := hbits w idx hidx
    rw [if_pos hin, eq_comm, Bool.or_eq_false_iff, decide_eq_false_iff_not, Phys.view_used] at heq
    exact heq.symm
  refine ⟨hzeroed, fun w hw idx hidx f h1 h2 hat => ?_⟩
  have hf : f - (s.zones z).basePfn < (s.zones z).span := by
    simp only [PhysZone.span]
    omega
  have hback : (s.zones z).basePfn + (f - (s.zones z).basePfn) = f := by omega
  have hclear : s.mem.bit ((s.zones z).bitAt (f - (s.zones z).basePfn)) = false := by
    rw [← Phys.view_used]
    exact hrun.clear f h1 h2
  -- the bit is set for the block, and not zeroed with it
  have hout : ¬ InBlock pfn n ((s.zones w).bitAt idx) := fun hin =>
    (hzeroed z _ hf (hat ▸ hin)).2 ⟨rfl, by omega, by omega⟩
  have hset := hbits w idx hidx
  rw [if_neg hout, Phys.view_used, hat, hclear, Bool.or_false, Bool.or_false, decide_eq_decide,
    PhysZone.bitAt_mem_iff hb, hback] at hset
  exact hw (hset.1 ⟨h1, h2⟩).1

/-- The zone loop takes the block it finds in the view. -/
theorem Phys.allocFrom_eq (r : Request) (zs : List ZoneIdx) (s : Phys) :
    s.allocFrom r zs =
      match r.block s.view zs with
      | some (z, pfn) => (s.take z pfn r.count, physToVirt (pfn * pageSize))
      | none => (s, 0) := by
  induction zs with
  | nil => rfl
  | cons z zs ih =>
    have hview : (s.zones z).view s.mem = s.view.zones z := rfl
    rw [Phys.allocFrom, Request.block, Phys.lockedAlloc_eq, ← Phys.view_freePages, hview]
    split
    · exact ih
    · cases r.search (s.view.zones z) with
      | none => exact ih
      | some pfn => rfl

/-- **All an allocation can do**, beside what the model with private
bitmaps does: the two take the same block. -/
theorem Phys.alloc_chooses (s : Phys) (hr : 0 < r.count) :
    (∃ z pfn, r.Chooses s.view z pfn ∧
      s.alloc r = (s.take z pfn r.count, physToVirt (pfn * pageSize)) ∧
      r.exec s.view =
        (s.view.setZone z ((s.view.zones z).mark pfn r.count), physToVirt (pfn * pageSize))) ∨
    ((∀ z pfn, ¬ r.Finds (s.view.zones z) pfn) ∧ s.alloc r = (s, 0) ∧
      r.exec s.view = (s.view, 0)) := by
  have hloop : ∀ q : Request,
      (∃ z pfn, q.Chooses s.view z pfn ∧
        s.allocFrom q allocOrder = (s.take z pfn q.count, physToVirt (pfn * pageSize)) ∧
        Pmm.allocFrom q allocOrder s.view =
          (s.view.setZone z ((s.view.zones z).mark pfn q.count), physToVirt (pfn * pageSize))) ∨
      ((∀ z pfn, ¬ q.Finds (s.view.zones z) pfn) ∧ s.allocFrom q allocOrder = (s, 0) ∧
        Pmm.allocFrom q allocOrder s.view = (s.view, 0)) := by
    intro q
    rw [Phys.allocFrom_eq, Pmm.allocFrom_eq]
    rcases block_chooses q s.view with ⟨z, pfn, hchoice, hblock⟩ | ⟨hnone, hblock⟩
    · rw [hblock]
      exact Or.inl ⟨z, pfn, hchoice, rfl, rfl⟩
    · rw [hblock]
      exact Or.inr ⟨hnone, rfl, rfl⟩
  cases r with
  | page => exact hloop .page
  | huge => exact hloop .huge
  | pages count =>
    have h0 : count ≠ 0 := Nat.pos_iff_ne_zero.1 hr
    simp only [Phys.alloc, Request.exec, pmmAllocPages, if_neg h0]
    by_cases hone : count = 1
    · subst hone
      simp only [if_true, pmmAllocPage, ← Request.page_chooses_iff, ← Request.page_finds_iff]
      exact hloop .page
    · simp only [if_neg hone]
      exact hloop (.pages count)

/-- A request of no pages is turned down. -/
theorem Phys.alloc_zero (s : Phys) (hr : r.count = 0) :
    s.alloc r = (s, 0) ∧ r.exec s.view = (s.view, 0) := by
  cases r with
  | page => cases hr
  | huge => cases hr
  | pages count =>
    obtain rfl : count = 0 := hr
    exact ⟨rfl, rfl⟩

/-- **The block a request would take spares the bitmaps.** -/
def Phys.Spared (s : Phys) (r : Request) : Prop :=
  ∀ z pfn, r.Chooses s.view z pfn → s.Spares z pfn r.count

/-- **An allocation commutes with the view** where its block spares the
bitmaps, and the answer is the same in any case. -/
theorem Phys.alloc_view (s : Phys) (r : Request) :
    (s.alloc r).2 = (r.exec s.view).2 ∧
      (s.Spared r → (s.alloc r).1.view.Agrees (r.exec s.view).1) := by
  rcases Nat.eq_zero_or_pos r.count with h0 | hpos
  · obtain ⟨h1, h2⟩ := Phys.alloc_zero s h0
    rw [h1, h2]
    exact ⟨rfl, fun _ => State.Agrees.refl _⟩
  rcases Phys.alloc_chooses s hpos with ⟨z, pfn, hchoice, h1, h2⟩ | ⟨-, h1, h2⟩
  · rw [h1, h2]
    have hrun := Request.search_freeRun hchoice.finds.2
    exact ⟨rfl, fun hs => (Phys.take_agrees_iff hrun).2 (hs z pfn hchoice)⟩
  · rw [h1, h2]
    exact ⟨rfl, fun _ => State.Agrees.refl _⟩

/-! ## First fit -/

/-- **What taking a block changes**: the bits of its frames, and the
counter of its zone. -/
structure Takes (t u : State) (z : ZoneIdx) (pfn count : ℕ) : Prop where
  layout : SameLayout u t
  others : ∀ w, w ≠ z → (u.zones w).freePages = (t.zones w).freePages
  free : (u.zones z).freePages + count = (t.zones z).freePages
  used_iff : ∀ w idx, idx < (t.zones w).span → ((u.zones w).used idx = true ↔
    (t.zones w).used idx = true ∨
      (w = z ∧ pfn ≤ (t.zones w).basePfn + idx ∧ (t.zones w).basePfn + idx < pfn + count))

/-- Marking a run takes it. -/
theorem State.Counted.takes_mark (h : t.Counted) (hrun : (t.zones z).FreeRun pfn count) :
    Takes t (t.setZone z ((t.zones z).mark pfn count)) z pfn count := by
  have hb := hrun.base_le
  have hle := hrun.le_freeCount
  have hfits := h.fits z
  rw [← h.counted z] at hle
  refine ⟨SameLayout.setZone mark_basePfn mark_endPfn mark_totalPages, fun w hw => ?_, ?_,
    fun w idx _ => ?_⟩
  · rw [State.setZone_of_ne hw]
  · rw [State.setZone_self, mark_freePages, sub64_of_le hfits hle]
    omega
  · by_cases hw : w = z
    · subst hw
      rw [State.setZone_self, mark_used hb]
      refine or_congr_right ?_
      simp only [true_and]
      omega
    · rw [State.setZone_of_ne hw]
      exact ⟨Or.inl, fun hc => hc.resolve_right fun h => hw h.1⟩

/-- What is taken says all about the state afterwards. -/
theorem Takes.agrees_iff {u' : State} (h : Takes t u z pfn count) :
    u'.Agrees u ↔ Takes t u' z pfn count := by
  constructor
  · intro hag
    have hlay := hag.layout.trans h.layout
    refine ⟨hlay, fun w hw => (hag.free w).trans (h.others w hw), ?_, fun w idx hidx => ?_⟩
    · rw [hag.free]
      exact h.free
    · rw [hag.bits w idx (by rwa [hlay.span])]
      exact h.used_iff w idx hidx
  · intro h'
    refine ⟨h'.layout.trans h.layout.symm, fun w => ?_, fun w idx hidx => ?_⟩
    · by_cases hw : w = z
      · have h1 := h.free
        have h2 := h'.free
        rw [hw]
        omega
      · rw [h.others w hw, h'.others w hw]
    · rw [h'.layout.span] at hidx
      rw [Bool.eq_iff_iff, h.used_iff w idx hidx, h'.used_iff w idx hidx]

/-- **`pmm_alloc_pages` is first fit**: it succeeds where some zone has a
run of the length; it answers with the direct map of the lowest run of
the first zone that has one, and takes that run; where no zone has one it
answers `NULL` and changes nothing. One page is what `pmm_alloc_page`
gives. -/
structure Phys.FirstFits (s : Phys) (count : ℕ) : Prop where
  succeeds_iff : (s.alloc (.pages count)).2 ≠ 0 ↔ ∃ z q, (s.view.zones z).FreeRun q count
  takes : ∀ z pfn, FirstFit s.view count z pfn →
    (s.alloc (.pages count)).2 = kernelHigherHalf + pfn * pageSize ∧
      kernelHigherHalf + (pfn + count) * pageSize ≤ 2 ^ 64 ∧
      Takes s.view (s.alloc (.pages count)).1.view z pfn count
  fails : (¬ ∃ z q, (s.view.zones z).FreeRun q count) → s.alloc (.pages count) = (s, 0)
  one : s.alloc (.pages 1) = s.alloc .page

/-- The direct map of a block, where it ends in the higher half. -/
theorem physToVirt_frame (hc : 0 < count) (hle : pfn + count ≤ 2 ^ 35) :
    physToVirt (pfn * pageSize) = kernelHigherHalf + pfn * pageSize := by
  simp only [physToVirt, add64, pageSize, kernelHigherHalf]
  omega

theorem directMap_fits_iff :
    kernelHigherHalf + (pfn + count) * pageSize ≤ 2 ^ 64 ↔ pfn + count ≤ 2 ^ 35 := by
  simp only [pageSize, kernelHigherHalf]
  omega

/-- **When `pmm_alloc_pages` is first fit.** While the counters are right,
it is exactly if the run it would take ends below the top of the direct
map and spares the bitmaps. -/
theorem pmmAllocPages_firstFit_iff (h : s.view.Counted) (hc : 1 ≤ count) :
    s.FirstFits count ↔
      ∀ z pfn, FirstFit s.view count z pfn → pfn + count ≤ 2 ^ 35 ∧ s.Spares z pfn count := by
  rcases s.alloc_chooses (r := .pages count) hc with
    ⟨z, pfn, hchoice, hres, -⟩ | ⟨hnone, hres, -⟩
  · have hfit := h.firstFit hc hchoice
    have hrun := hfit.lowest.toFreeRun
    have hmark := h.takes_mark hrun
    -- what is taken of the bitmaps is what marking the run takes, if it spares them
    have htakes : Takes s.view (s.alloc (.pages count)).1.view z pfn count ↔
        s.Spares z pfn count := by
      rw [hres, ← hmark.agrees_iff]
      exact Phys.take_agrees_iff hrun
    constructor
    · intro hall z' pfn' hfit'
      obtain ⟨rfl, rfl⟩ := hfit.unique hfit'
      obtain ⟨-, hend, htake⟩ := hall.takes _ _ hfit'
      exact ⟨directMap_fits_iff.1 hend, htakes.1 htake⟩
    · intro hall
      obtain ⟨hend, hspares⟩ := hall z pfn hfit
      have hptr : (s.alloc (.pages count)).2 = kernelHigherHalf + pfn * pageSize := by
        rw [hres]
        exact physToVirt_frame hc hend
      refine ⟨⟨fun _ => ⟨z, pfn, hrun⟩, fun _ => ?_⟩, fun z' pfn' hfit' => ?_, fun hno => ?_, rfl⟩
      · rw [hptr]
        simp only [kernelHigherHalf]
        omega
      · obtain ⟨rfl, rfl⟩ := hfit.unique hfit'
        exact ⟨hptr, directMap_fits_iff.2 hend, htakes.2 hspares⟩
      · exact absurd ⟨z, pfn, hrun⟩ hno
  · have hempty : ¬ ∃ z q, (s.view.zones z).FreeRun q count := by
      rintro ⟨z, q, hq⟩
      obtain ⟨pfn, hfinds⟩ := h.finds_of_freeRun hc hq
      exact hnone z pfn hfinds
    have hnofit : ∀ z pfn, ¬ FirstFit s.view count z pfn := fun z pfn hfit =>
      hempty ⟨z, pfn, hfit.lowest.toFreeRun⟩
    refine ⟨fun _ z pfn hfit => absurd hfit (hnofit z pfn), fun _ => ⟨?_, fun z pfn hfit =>
      absurd hfit (hnofit z pfn), fun _ => hres, rfl⟩⟩
    rw [hres]
    exact ⟨fun hne => absurd rfl hne, fun hex => absurd hex hempty⟩

/-- Kept books are right counters. -/
theorem Accounted.toCounted (h : Accounted mmap t) (hok : MapOk mmap) : t.Counted := by
  refine ⟨h.counted, fun z => ?_⟩
  have h1 := h.free_le z
  have h2 := h.total hok z
  have h3 := hok.pagesIn_le z
  omega

theorem MapOk.counted_init (hok : MapOk mmap) {mem : ByteMem} (hs : physInit mem mmap = some s) :
    s.view.Counted :=
  ((accounted_init hok).congr (hok.view_agrees hs)).toCounted hok

/-- The two pages from 16 MB on, over zeroed memory. -/
def highPhys : Phys := (physInit (fun _ => 0) highMap).get (by decide +kernel)

theorem physInit_high : physInit (fun _ => 0) highMap = some highPhys := (Option.some_get _).symm

/-- One zone has frames, and its bitmap is at 1 MB. -/
theorem highPhys_zones : ∀ z, (highPhys.zones z).span = (if z = .dma32 then 2 else 0) ∧
    (z = .dma32 → (highPhys.zones z).basePfn = 0x1000 ∧ (highPhys.zones z).endPfn = 0x1002 ∧
      (highPhys.zones z).bitmap = 0x100000) := by
  intro z
  cases z <;> decide +kernel

/-- Its blocks are off the bitmap. -/
theorem highPhys_spares (hrun : (highPhys.view.zones z).FreeRun pfn n) (hn : 0 < n) :
    pfn + n ≤ 0x1002 ∧ highPhys.Spares z pfn n := by
  have hb : (highPhys.zones z).basePfn ≤ pfn := hrun.base_le
  have he : pfn + n ≤ (highPhys.zones z).endPfn := hrun.le_end
  obtain ⟨hspan, hvals⟩ := highPhys_zones z
  have hz : z = .dma32 := by
    by_contra hz
    rw [if_neg hz, PhysZone.span] at hspan
    omega
  obtain ⟨hbase, hend, -⟩ := hvals hz
  refine ⟨by omega, fun w idx hidx hin => ?_, fun w hw idx hidx => ?_⟩
  · obtain ⟨hspan, hvals⟩ := highPhys_zones w
    have hw : w = .dma32 := by
      by_contra hw
      rw [if_neg hw] at hspan
      omega
    have hbm := (hvals hw).2.2
    rw [if_pos hw] at hspan
    simp only [InBlock, PhysZone.bitAt, hbm, pageSize] at hin
    omega
  · have hspan := (highPhys_zones w).1
    rw [if_neg fun hc => hw (hc.trans hz.symm)] at hspan
    omega

/-- Both pages at once. -/
theorem pmmAllocPages_firstFit_high : highPhys.view.Counted ∧ 1 ≤ 2 ∧ highPhys.FirstFits 2 := by
  have hcounted := highMap_ok.counted_init physInit_high
  refine ⟨hcounted, by decide, (pmmAllocPages_firstFit_iff hcounted (by decide)).2 ?_⟩
  intro z pfn hfit
  obtain ⟨hend, hspares⟩ := highPhys_spares hfit.lowest.toFreeRun (by decide)
  exact ⟨by omega, hspares⟩

/-- The two pages from 1 MB on, over zeroed memory: the first is the page
of their own bitmap. -/
def lowPhys : Phys := (physInit (fun _ => 0) lowMap).get (by decide +kernel)

theorem physInit_low : physInit (fun _ => 0) lowMap = some lowPhys := (Option.some_get _).symm

theorem lowPhys_firstFit : FirstFit lowPhys.view 2 .dma 0x100 := by
  have hbase : (lowPhys.view.zones .dma).basePfn = 0x100 := by decide +kernel
  refine ⟨⟨⟨hbase.le, by decide +kernel, fun f h1 h2 => ?_⟩, fun q hq => ?_⟩, fun w hw q hq => ?_⟩
  · obtain rfl | rfl : f = 0x100 ∨ f = 0x101 := by omega
    · decide +kernel
    · decide +kernel
  · rw [← hbase]
    exact hq.base_le
  · -- the other zones are empty
    have hempty : (lowPhys.view.zones w).span = 0 := by
      cases w with
      | dma => exact absurd hw (by decide)
      | dma32 => decide +kernel
      | normal => decide +kernel
    have h1 := hq.base_le
    have h2 := hq.le_end
    rw [MemoryZone.span] at hempty
    omega

/-- **A block over its own bitmap**: the call succeeds, and the bits it set
are clear again. -/
theorem pmmAllocPages_clears_bits : physInit (fun _ => 0) lowMap = some lowPhys ∧
    lowPhys.view.Counted ∧ (lowPhys.alloc (.pages 2)).2 = 0xFFFF800000100000 ∧
    ((lowPhys.alloc (.pages 2)).1.view.zones .dma).freePages = 0 ∧
    ((lowPhys.alloc (.pages 2)).1.view.zones .dma).used 0 = false ∧
    ((lowPhys.alloc (.pages 2)).1.view.zones .dma).used 1 = false ∧ ¬ lowPhys.FirstFits 2 := by
  have hclear : ((lowPhys.alloc (.pages 2)).1.view.zones .dma).used 0 = false := by decide +kernel
  refine ⟨physInit_low, ?_, by decide +kernel, by decide +kernel, hclear, by decide +kernel, ?_⟩
  · have hok : MapOk lowMap := wrapMap_ok
    exact hok.counted_init physInit_low
  · intro hfits
    obtain ⟨-, -, htakes⟩ := hfits.takes .dma 0x100 lowPhys_firstFit
    have hset := (htakes.used_iff .dma 0 (by decide +kernel)).2
      (Or.inr ⟨rfl, by decide +kernel, by decide +kernel⟩)
    rw [hclear] at hset
    cases hset

end Pmm

end Kos
