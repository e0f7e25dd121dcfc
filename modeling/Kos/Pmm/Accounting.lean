import Kos.Pmm.Machine
/-!
# Pmm — allocation, free and the counters, call by call

The calls of one CPU, each run to its end. A call does to the zones what
one of its locked sections does, or nothing. Two things follow from the
free path taking a set bit for a double free: no free changes a bit, and
a counter is the number of its clear bits as long as no frame that is
free is freed.
-/

namespace Kos

namespace Pmm

variable {s s' : State} {z : ZoneIdx} {mmap : List MmapEntry} {r : Request}

/-! ## What a call can do -/

/-- **All an allocator's zone loop can do.** -/
theorem allocFrom_cases (r : Request) (zs : List ZoneIdx) (s : State) :
    allocFrom r zs s = (s, 0) ∨
      ∃ z pfn, (s.zones z).FreeRun pfn r.count ∧
        allocFrom r zs s =
          (s.setZone z ((s.zones z).mark pfn r.count), physToVirt (pfn * pageSize)) := by
  induction zs with
  | nil => exact Or.inl rfl
  | cons z zs ih =>
    rw [allocFrom]
    split
    · exact ih
    · split
      · rename_i pfn s' hl
        obtain ⟨hrun, rfl⟩ := lockedAlloc_cases hl
        exact Or.inr ⟨z, pfn, hrun, rfl⟩
      · exact ih

/-- **All `pmm_free_page` can do.** -/
theorem freeFrom_cases (addr : ℕ) (zs : List ZoneIdx) (s : State) :
    (freeFrom addr zs s).1 = s ∨
      ∃ z ∈ zs, FreeHits s z (addr / pageSize) ∧
        (freeFrom addr zs s).1 = s.setZone z ((s.zones z).refree (addr / pageSize)) := by
  induction zs with
  | nil => exact Or.inl rfl
  | cons z zs ih =>
    have hrest : (freeFrom addr zs s).1 = s ∨ ∃ w ∈ z :: zs, FreeHits s w (addr / pageSize) ∧
        (freeFrom addr zs s).1 = s.setZone w ((s.zones w).refree (addr / pageSize)) := by
      refine ih.imp_right ?_
      rintro ⟨w, hw, h⟩
      exact ⟨w, List.mem_cons_of_mem z hw, h⟩
    rw [freeFrom]
    split
    · exact hrest
    · exact hrest
    · rename_i s' hl
      obtain ⟨hhit, rfl⟩ := lockedFree_cases hl
      exact Or.inr ⟨z, List.mem_cons_self, hhit, rfl⟩

/-- **The call frees a frame that is free already.** -/
def Refrees (s : State) (addr : ℕ) : Prop :=
  addr ≠ 0 ∧ ∃ z ∈ freeOrder, FreeHits s z (addr / pageSize)

instance {addr : ℕ} : Decidable (Refrees s addr) := inferInstanceAs (Decidable (_ ∧ _))

theorem pmmFreePage_cases (s : State) (addr : ℕ) :
    (pmmFreePage s addr).1 = s ∨ ∃ z, FreeHits s z (addr / pageSize) ∧
      (pmmFreePage s addr).1 = s.setZone z ((s.zones z).refree (addr / pageSize)) := by
  unfold pmmFreePage
  split
  · exact Or.inl rfl
  · refine (freeFrom_cases addr freeOrder s).imp_right ?_
    rintro ⟨z, -, h⟩
    exact ⟨z, h⟩

/-- A free of anything but a free frame changes nothing. -/
theorem pmmFreePage_of_not_refrees {addr : ℕ} (h : ¬ Refrees s addr) :
    (pmmFreePage s addr).1 = s := by
  unfold pmmFreePage
  split
  · rfl
  · rename_i h0
    rcases freeFrom_cases addr freeOrder s with heq | ⟨z, hz, hhit, -⟩
    · exact heq
    · exact absurd ⟨h0, z, hz, hhit⟩ h

/-! ## No free changes a bit -/

/-- The bitmaps of the two states agree, each in its zone's range. -/
def SameBits (s t : State) : Prop :=
  ∀ z idx, idx < (s.zones z).span → (s.zones z).used idx = (t.zones z).used idx

/-- Every zone's bitmap and counter are back. -/
def Restored (s t : State) : Prop :=
  SameBits s t ∧ ∀ z, (s.zones z).freePages = (t.zones z).freePages

theorem pmmFreePage_used (s : State) (addr : ℕ) (z : ZoneIdx) (idx : ℕ) :
    ((pmmFreePage s addr).1.zones z).used idx = (s.zones z).used idx := by
  rcases pmmFreePage_cases s addr with heq | ⟨w, hhit, heq⟩
  · rw [heq]
  · rw [heq]
    by_cases hz : z = w
    · subst hz
      rw [State.setZone_self, refree_used hhit.2.2]
    · rw [State.setZone_of_ne hz]

theorem pmmFreePages_used (s : State) (addr count : ℕ) (z : ZoneIdx) (idx : ℕ) :
    ((pmmFreePages s addr count).zones z).used idx = (s.zones z).used idx := by
  unfold pmmFreePages
  split
  · rfl
  · exact runFrom_invariant (P := fun t => (t.zones z).used idx = (s.zones z).used idx)
      (fun t i h => (pmmFreePage_used t _ z idx).trans h) _ rfl

/-- The allocator of a request. -/
def Request.exec (s : State) : Request → State × ℕ
  | .page => pmmAllocPage s
  | .pages count => pmmAllocPages s count
  | .huge => pmmAllocHugePage s

/-! ## The counters, call by call -/

/-- A call run to its end. -/
def Call.exec (s : State) : Call → State
  | .allocPage => (pmmAllocPage s).1
  | .allocPages count => (pmmAllocPages s count).1
  | .allocHugePage => (pmmAllocHugePage s).1
  | .freePage addr => (pmmFreePage s addr).1
  | .freePages addr count => pmmFreePages s addr count

/-- The call frees no frame that is free already. -/
def NoRefree (s : State) : Call → Prop
  | .freePage addr => ¬ Refrees s addr
  | .freePages addr count =>
    addr = 0 ∨ ∀ i, i < count → ¬ Refrees s (add64 addr (mul64 i pageSize))
  | _ => True

instance : ∀ c, Decidable (NoRefree s c)
  | .freePage addr => inferInstanceAs (Decidable (¬ Refrees s addr))
  | .freePages _ _ => inferInstanceAs (Decidable (_ ∨ _))
  | .allocPage => isTrue trivial
  | .allocPages _ => isTrue trivial
  | .allocHugePage => isTrue trivial

/-- **The books are kept**: the zones are where `pmm_init` put them, and
every counter is the number of clear bits. -/
structure Accounted (mmap : List MmapEntry) (s : State) : Prop where
  layout : SameLayout s (pmmInit mmap)
  counted : ∀ z, (s.zones z).freePages = freeCount (s.zones z).used (s.zones z).span
  free_le : ∀ z, (s.zones z).freePages ≤ (s.zones z).totalPages

theorem accounted_init (hok : MapOk mmap) : Accounted mmap (pmmInit mmap) :=
  ⟨SameLayout.refl _, hok.initSpec.counted, hok.initSpec.free_le⟩

theorem Accounted.total (h : Accounted mmap s) (hok : MapOk mmap) (z : ZoneIdx) :
    (s.zones z).totalPages = pagesIn z mmap := by
  rw [h.layout.total, hok.initSpec.total]

/-- Marking a clear run keeps the books. -/
theorem Accounted.mark {pfn n : ℕ} (h : Accounted mmap s) (hok : MapOk mmap)
    (hrun : (s.zones z).FreeRun pfn n) :
    Accounted mmap (s.setZone z ((s.zones z).mark pfn n)) := by
  have hlay : SameLayout (s.setZone z ((s.zones z).mark pfn n)) s :=
    SameLayout.setZone mark_basePfn mark_endPfn mark_totalPages
  have hcount := freeCount_mark hrun
  have hz := h.counted z
  have hle := h.free_le z
  have htot := h.total hok z
  have hlim := hok.pagesIn_le z
  have hsub : sub64 (s.zones z).freePages n = (s.zones z).freePages - n :=
    sub64_of_le (by omega) (by omega)
  refine ⟨hlay.trans h.layout, fun w => ?_, fun w => ?_⟩
  · by_cases hw : w = z
    · subst hw
      rw [State.setZone_self, mark_span, mark_freePages, hsub]
      omega
    · rw [State.setZone_of_ne hw]
      exact h.counted w
  · by_cases hw : w = z
    · subst hw
      rw [State.setZone_self, mark_totalPages, mark_freePages, hsub]
      omega
    · rw [State.setZone_of_ne hw]
      exact h.free_le w

theorem Accounted.allocFrom (h : Accounted mmap s) (hok : MapOk mmap) (r : Request)
    (zs : List ZoneIdx) : Accounted mmap (allocFrom r zs s).1 := by
  rcases allocFrom_cases r zs s with heq | ⟨z, pfn, hrun, heq⟩
  · rw [heq]; exact h
  · rw [heq]; exact h.mark hok hrun

theorem pmmFreePages_of_no_refree {addr count : ℕ}
    (h : addr = 0 ∨ ∀ i, i < count → ¬ Refrees s (add64 addr (mul64 i pageSize))) :
    pmmFreePages s addr count = s := by
  unfold pmmFreePages
  split
  · rfl
  · rename_i h0
    have hno := h.resolve_left fun ha => h0 (Or.inl ha)
    clear h h0
    induction count with
    | zero => rfl
    | succ n ih =>
      rw [List.range_succ, List.foldl_append, ih fun i hi => hno i (by omega)]
      exact pmmFreePage_of_not_refrees (hno n (by omega))

theorem Accounted.step (h : Accounted mmap s) (hok : MapOk mmap) (c : Call)
    (hno : NoRefree s c) : Accounted mmap (c.exec s) := by
  cases c with
  | allocPage => exact h.allocFrom hok .page allocOrder
  | allocPages count =>
    simp only [Call.exec, pmmAllocPages]
    split
    · exact h
    · split
      · exact h.allocFrom hok .page allocOrder
      · exact h.allocFrom hok (.pages count) allocOrder
  | allocHugePage => exact h.allocFrom hok .huge allocOrder
  | freePage addr =>
    simp only [Call.exec]
    rw [pmmFreePage_of_not_refrees hno]
    exact h
  | freePages addr count =>
    simp only [Call.exec]
    rw [pmmFreePages_of_no_refree hno]
    exact h

/-- The statistics add up where the books are kept. -/
theorem Accounted.stats (h : Accounted mmap s) (hok : MapOk mmap) :
    (pmmGetStats s).2.2 ≤ (pmmGetStats s).1 ∧
      (pmmGetStats s).2.1 + (pmmGetStats s).2.2 = (pmmGetStats s).1 := by
  have hsum := pagesIn_sum mmap
  have hlim := hok.pagesAll_le
  have hfree : ∀ z, (s.zones z).freePages ≤ pagesIn z mmap := fun z => by
    rw [← h.total hok z]; exact h.free_le z
  have h1 := hfree .dma
  have h2 := hfree .dma32
  have h3 := hfree .normal
  have htotal : mul64 s.totalSystemPages pageSize = pageSize * pagesAll mmap := by
    rw [h.layout.system, hok.initSpec.system, mul64_of_lt (by simp only [pageSize]; omega),
      Nat.mul_comm]
  have hget : pmmGetFree s = pageSize * ((s.zones .dma).freePages + (s.zones .dma32).freePages +
      (s.zones .normal).freePages) := by
    simp only [pmmGetFree, freeOrder, List.foldl_cons, List.foldl_nil, add64, mul64, pageSize]
    omega
  have hle : pmmGetFree s ≤ mul64 s.totalSystemPages pageSize := by
    rw [hget, htotal]
    exact Nat.mul_le_mul_left _ (by omega)
  have hlt : mul64 s.totalSystemPages pageSize < 2 ^ 64 := Nat.mod_lt _ (by decide)
  simp only [pmmGetStats]
  refine ⟨hle, ?_⟩
  rw [sub64_of_le hlt hle]
  omega

end Pmm

end Kos
