import Kos.Pmm.Supply
import Kos.Pmm.View
/-!
# Pmm — maps that keep the bitmaps out of what is handed out

On a map that claims no page of a bitmap, every allocation spares the
bitmaps, so the allocator over physical memory is, call by call, the one
with private bitmaps: it gives the same answers, whatever is allocated
and freed. What holds of the one in every run then holds of the other.
-/

namespace Kos

namespace Pmm

/-! ## Simulation of allocators -/

section Simulation

variable {σ τ : Type} {A : Allocator σ} {B : Allocator τ} {R : σ → τ → Prop}

/-- **One allocator simulates another**: from related states the answers
are the same, and the states stay related. -/
structure Allocator.Simulates (A : Allocator σ) (B : Allocator τ) (R : σ → τ → Prop) : Prop where
  allocPage : ∀ s t, R s t →
    (A.allocPage s).2 = (B.allocPage t).2 ∧ R (A.allocPage s).1 (B.allocPage t).1
  alloc : ∀ s t r, R s t → (A.alloc s r).2 = (B.alloc t r).2 ∧ R (A.alloc s r).1 (B.alloc t r).1
  freePage : ∀ s t addr, R s t → R (A.freePage s addr) (B.freePage t addr)
  freePages : ∀ s t addr count, R s t → R (A.freePages s addr count) (B.freePages t addr count)

theorem Allocator.Simulates.answers (h : A.Simulates B R) : ∀ n s t, R s t →
    Pmm.answers A.allocPage n s = Pmm.answers B.allocPage n t := by
  intro n
  induction n with
  | zero => intro s t _; rfl
  | succ n ih =>
    intro s t hst
    obtain ⟨hans, hrest⟩ := h.allocPage s t hst
    rw [Pmm.answers, Pmm.answers, hans, ih _ _ hrest]

theorem Allocator.Simulates.afterPages (h : A.Simulates B R) : ∀ n s t, R s t →
    R (Pmm.afterPages A.allocPage n s) (Pmm.afterPages B.allocPage n t) := by
  intro n
  induction n with
  | zero => intro s t hst; exact hst
  | succ n ih => exact fun s t hst => ih _ _ (h.allocPage s t hst).2

end Simulation

variable {mem : ByteMem} {s : Phys} {s₁ t : State} {z : ZoneIdx} {pfn addr : ℕ}
  {avail : ZoneIdx → ℕ → Prop} {mmap : List MmapEntry}

/-- The one over physical memory. -/
def physical : Allocator Phys where
  allocPage := fun s => s.alloc .page
  alloc := Phys.alloc
  freePage := fun s addr => (s.freePage addr).1
  freePages := Phys.freePages

/-! ## Frees in step -/

section Frees

variable (hempty : ∀ z, s₁.bitmapBytes z = 0 → (s₁.zones z).span = 0)
include hempty

/-- A frame in the range of a zone has a bit in memory. -/
theorem Sim.used_eq (h : Sim s₁ s t) (hb : (s.zones z).basePfn ≤ pfn)
    (he : pfn < (s.zones z).endPfn) :
    bitmapTest (bitmapAt s.mem (s.zones z).bitmap) (pfn - (s.zones z).basePfn) =
      (t.zones z).used (pfn - (t.zones z).basePfn) := by
  have hidx : pfn - (s.zones z).basePfn < (s.view.zones z).span := by
    rw [Phys.view_span, PhysZone.span]
    omega
  have hbits := (h.view_agrees hempty).bits z _ hidx
  rw [← (h.like z).base]
  exact hbits

/-- **One section of a free in step.** -/
theorem Sim.lockedFree (h : Sim s₁ s t) (z : ZoneIdx) (pfn : ℕ) :
    (s.lockedFree z pfn = .notHere ∧ Pmm.lockedFree z pfn t = .notHere) ∨
      (s.lockedFree z pfn = .doubleFree ∧ Pmm.lockedFree z pfn t = .doubleFree) ∨
      ∃ s' t', s.lockedFree z pfn = .freed s' ∧ Pmm.lockedFree z pfn t = .freed t' ∧
        Sim s₁ s' t' := by
  have hbase := (h.like z).base
  have hstop := (h.like z).stop
  have hspan := (h.like z).span
  rw [Phys.lockedFree, Pmm.lockedFree]
  by_cases hin : (s.zones z).basePfn ≤ pfn ∧ pfn < (s.zones z).endPfn
  · have hin' : (t.zones z).basePfn ≤ pfn ∧ pfn < (t.zones z).endPfn := by omega
    have hidx : ¬ pfn - (s.zones z).basePfn ≥ (s.zones z).span := by
      rw [PhysZone.span]
      omega
    have hidx' : ¬ pfn - (t.zones z).basePfn ≥ (t.zones z).span := by
      rw [MemoryZone.span]
      omega
    have hused := h.used_eq hempty hin.1 hin.2
    rw [if_pos hin, if_pos hin', if_neg hidx, if_neg hidx', hused]
    by_cases hu : (t.zones z).used (pfn - (t.zones z).basePfn) = true
    · rw [if_pos hu, if_pos hu]
      exact Or.inr (Or.inl ⟨rfl, rfl⟩)
    · rw [if_neg hu, if_neg hu]
      rw [Bool.not_eq_true] at hu
      refine Or.inr (Or.inr ⟨_, _, rfl, rfl, ?_⟩)
      rw [memBitmapClear_of_clear (hused.trans hu)]
      refine Sim.update h rfl rfl rfl (by rw [(h.like z).free]) (fun hz idx hlt => ?_)
        fun w _ _ idx _ => rfl
      rw [h.bits z hz idx hlt, bitmapClear_of_clear hu]
      rfl
  · have hin' : ¬ ((t.zones z).basePfn ≤ pfn ∧ pfn < (t.zones z).endPfn) := by omega
    rw [if_neg hin, if_neg hin']
    exact Or.inl ⟨rfl, rfl⟩

/-- **`pmm_free_page` in step.** -/
theorem Sim.freePage (h : Sim s₁ s t) (addr : ℕ) :
    Sim s₁ (s.freePage addr).1 (pmmFreePage t addr).1 := by
  have hloop : ∀ zs, Sim s₁ (s.freeFrom addr zs).1 (freeFrom addr zs t).1 := by
    intro zs
    induction zs with
    | nil => exact h
    | cons z zs ih =>
      rw [Phys.freeFrom, Pmm.freeFrom]
      rcases h.lockedFree hempty z (addr / pageSize) with ⟨h1, h2⟩ | ⟨h1, h2⟩ | ⟨s', t', h1, h2, h'⟩
      · rw [h1, h2]
        exact ih
      · rw [h1, h2]
        exact ih
      · rw [h1, h2]
        exact h'
  rw [Phys.freePage, pmmFreePage]
  split
  · exact h
  · exact hloop freeOrder

/-- No free makes a frame available. -/
theorem Clean.freePage (h : Clean s₁ avail t) (addr : ℕ) :
    Clean s₁ avail (pmmFreePage t addr).1 := by
  rcases pmmFreePage_cases t addr with heq | ⟨z, ⟨hb, he, hu⟩, heq⟩
  · rw [heq]
    exact h
  · rw [heq]
    refine Clean.update h rfl rfl rfl (fun _ _ _ ha => ha) (fun idx hidx hz hclear => ?_)
      fun hz => ?_
    · rw [refree_used hu] at hclear
      exact h.clear z hz idx hidx hclear
    · have hspan := hempty z hz
      rw [← h.layout.span, MemoryZone.span] at hspan
      omega

end Frees

/-! ## The map -/

/-- **The map offers no page of a bitmap**: no frame it claims for a
populated zone is under a bitmap, unless the reservation takes it from
`ZONE_NORMAL`. -/
def OffersSpare (mmap : List MmapEntry) : Prop :=
  ∀ z f, (z, f) ∈ claimed mmap → mapBytes mmap z ≠ 0 → ¬ (z = .normal ∧ f < 0x1000) →
    ∀ w, ¬ BitmapFrame mmap w f

/-- The two allocators on such a map, after the same calls. -/
structure SpareSim (mmap : List MmapEntry) (s : Phys) (t : State) : Prop where
  sim : Sim (mmap.foldl addEntry emptyState) s t
  clean : Clean (mmap.foldl addEntry emptyState)
    (fun _ f => ∀ w, ¬ (mmap.foldl addEntry emptyState).Backs w f) t

theorem OffersSpare.sim_init (hmap : OffersSpare mmap) (hs : physInit mem mmap = some s) :
    SpareSim mmap s (pmmInit mmap) := by
  have hbytes := (firstPass mmap).bitmapBytes_eq
  refine ⟨Pmm.sim_init hs, (clean_init mmap).mono fun z hz idx _ ha => ?_⟩
  unfold State.Backs
  rw [hbytes] at hz ⊢
  exact hmap z _ ha.1 hz ha.2

/-- **On such a map physical memory makes no difference.** -/
theorem MapOk.physical_simulates (hok : MapOk mmap) :
    physical.Simulates privateBitmaps (SpareSim mmap) := by
  have hend := (firstPass mmap).end_lt
  have hempty := fun z => hok.span_eq_zero (z := z)
  have halloc : ∀ s t r, SpareSim mmap s t →
      (s.alloc r).2 = (r.exec t).2 ∧ SpareSim mmap (s.alloc r).1 (r.exec t).1 := by
    intro s t r h
    obtain ⟨hsim, hclean, hans, -⟩ := h.sim.alloc h.clean (fun _ _ ha => ha) hend r
    exact ⟨hans, hsim, hclean⟩
  have hfree : ∀ s t addr, SpareSim mmap s t →
      SpareSim mmap (s.freePage addr).1 (pmmFreePage t addr).1 := fun s t addr h =>
    ⟨h.sim.freePage hempty addr, h.clean.freePage hempty addr⟩
  refine ⟨fun s t h => halloc s t .page h, halloc, hfree, fun s t addr count h => ?_⟩
  change SpareSim mmap (s.freePages addr count) (pmmFreePages t addr count)
  rw [Phys.freePages, pmmFreePages]
  split
  · exact h
  · exact List.foldl_rel h fun i _ s t h => hfree s t _ h

end Pmm

end Kos
