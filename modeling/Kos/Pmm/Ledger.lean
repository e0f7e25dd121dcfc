import Kos.Pmm.View
/-!
# Pmm — the books over physical memory

The calls of one CPU, each run to its end, on the memory the bitmaps lie
in. The books are kept in every run in which no free frame is freed and
no block is taken that covers bits of the bitmaps; a call of either kind
puts a counter out of step with its bits. And no free gives back what an
allocation took: it looks for the frame of the pointer's own page number,
which is far above every zone, so the counter of the block's zone stays
behind by one at least.
-/

namespace Kos

namespace Pmm

variable {mem : ByteMem} {s s' s₀ : Phys} {z : ZoneIdx} {pfn n : ℕ} {mmap : List MmapEntry}
  {r : Request}

/-! ## Frees -/

/-- **All `pmm_free_page` can do**: raise a counter. -/
theorem Phys.freePage_cases (s : Phys) (addr : ℕ) :
    (s.freePage addr).1 = s ∨ ∃ z, addr ≠ 0 ∧ FreeHits s.view z (addr / pageSize) ∧
      (s.freePage addr).1 =
        s.setZone z { s.zones z with freePages := add64 (s.zones z).freePages 1 } := by
  have hloop : ∀ zs, (s.freeFrom addr zs).1 = s ∨ ∃ z, FreeHits s.view z (addr / pageSize) ∧
      (s.freeFrom addr zs).1 =
        s.setZone z { s.zones z with freePages := add64 (s.zones z).freePages 1 } := by
    intro zs
    induction zs with
    | nil => exact Or.inl rfl
    | cons z zs ih =>
      rw [Phys.freeFrom]
      cases hlocked : s.lockedFree z (addr / pageSize) with
      | notHere => exact ih
      | doubleFree => exact ih
      | freed s' => exact Or.inr ⟨z, Phys.lockedFree_cases hlocked⟩
  rw [Phys.freePage]
  split
  · exact Or.inl rfl
  · rename_i h0
    obtain heq | ⟨z, hhit, heq⟩ := hloop freeOrder
    · exact Or.inl heq
    · exact Or.inr ⟨z, h0, hhit, heq⟩

/-- A free of anything but a free frame changes nothing. -/
theorem Phys.freePage_of_not_refrees {addr : ℕ} (h : ¬ Refrees s.view addr) :
    (s.freePage addr).1 = s := by
  rcases s.freePage_cases addr with heq | ⟨z, h0, hhit, -⟩
  · exact heq
  · have hz : z ∈ freeOrder := by cases z <;> decide
    exact absurd ⟨h0, z, hz, hhit⟩ h

/-! ## The counters, call by call -/

/-- A call run to its end. -/
def Phys.exec (s : Phys) : Call → Phys
  | .allocPage => (s.alloc .page).1
  | .allocPages count => (s.alloc (.pages count)).1
  | .allocHugePage => (s.alloc .huge).1
  | .freePage addr => (s.freePage addr).1
  | .freePages addr count => s.freePages addr count

/-- **What the books bear**: the block an allocation would take spares the
bitmaps, and no free frame is freed. -/
def Phys.Bears (s : Phys) : Call → Prop
  | .allocPage => s.Spared .page
  | .allocPages count => s.Spared (.pages count)
  | .allocHugePage => s.Spared .huge
  | .freePage addr => NoRefree s.view (.freePage addr)
  | .freePages addr count => NoRefree s.view (.freePages addr count)

/-- **A call the books bear commutes with the view**, and frees no free
frame there. -/
theorem Phys.Bears.exec_view {c : Call} (h : s.Bears c) :
    (s.exec c).view.Agrees (c.exec s.view) ∧ NoRefree s.view c := by
  cases c with
  | allocPage => exact ⟨(s.alloc_view .page).2 h, trivial⟩
  | allocPages count => exact ⟨(s.alloc_view (.pages count)).2 h, trivial⟩
  | allocHugePage => exact ⟨(s.alloc_view .huge).2 h, trivial⟩
  | freePage addr =>
    refine ⟨?_, h⟩
    rw [Phys.exec, Phys.freePage_view]
    exact State.Agrees.refl _
  | freePages addr count =>
    refine ⟨?_, h⟩
    rw [Phys.exec, Phys.freePages_view]
    exact State.Agrees.refl _

/-- **The zones end below 2^52 bytes**, and the bitmaps begin in the first
512 MB. -/
structure Phys.Placed (s : Phys) : Prop where
  stop : ∀ z, (s.zones z).endPfn ≤ 2 ^ 40
  bitmap : ∀ z, (s.zones z).bitmap < 2 ^ 29

/-- Ranges and pointers that stay. -/
theorem Phys.Placed.congr (h : s.Placed) (hstop : ∀ z, (s'.zones z).endPfn = (s.zones z).endPfn)
    (hbitmap : ∀ z, (s'.zones z).bitmap = (s.zones z).bitmap) : s'.Placed :=
  ⟨fun z => (hstop z).trans_le (h.stop z), fun z => (hbitmap z).trans_lt (h.bitmap z)⟩

theorem Phys.Placed.alloc (h : s.Placed) (r : Request) : (s.alloc r).1.Placed := by
  rcases Nat.eq_zero_or_pos r.count with h0 | hpos
  · rw [(s.alloc_zero h0).1]
    exact h
  rcases s.alloc_chooses hpos with ⟨z, pfn, -, hres, -⟩ | ⟨-, hres, -⟩
  · rw [hres]
    obtain ⟨hlay, hbitmap⟩ := s.take_layout z pfn r.count
    exact h.congr hlay.stop hbitmap
  · rw [hres]
    exact h

theorem Phys.Placed.freePage (h : s.Placed) (addr : ℕ) : (s.freePage addr).1.Placed := by
  rcases s.freePage_cases addr with heq | ⟨z, -, -, heq⟩
  · rw [heq]
    exact h
  · rw [heq]
    refine h.congr (fun w => ?_) fun w => ?_ <;> by_cases hw : w = z
    · rw [hw, Phys.setZone_self]
    · rw [Phys.setZone_of_ne hw]
    · rw [hw, Phys.setZone_self]
    · rw [Phys.setZone_of_ne hw]

theorem Phys.Placed.exec (h : s.Placed) (c : Call) : (s.exec c).Placed := by
  cases c with
  | allocPage => exact h.alloc .page
  | allocPages count => exact h.alloc (.pages count)
  | allocHugePage => exact h.alloc .huge
  | freePage addr => exact h.freePage addr
  | freePages addr count =>
    rw [Phys.exec, Phys.freePages]
    split
    · exact h
    · exact runFrom_invariant (P := Phys.Placed) (fun _ _ h => h.freePage _) _ h

/-- The early allocator answers with one of the first 65536 pages from
1 MB on. -/
theorem pmmEarlyAlloc_cases {pages ptr : ℕ} (h : pmmEarlyAlloc s pages = some (s', ptr)) :
    ptr < 2 ^ 29 ∧ s'.zones = s.zones := by
  have hzones : s.earlyStart.zones = s.zones := by
    rw [Phys.earlyStart]
    split <;> rfl
  simp only [pmmEarlyAlloc] at h
  split at h
  · cases h
  · rename_i i hi
    have hlt := (earlySearch_spec hi).2.1
    simp only [Option.some.injEq, Prod.mk.injEq] at h
    obtain ⟨rfl, rfl⟩ := h
    exact ⟨by simp only [pageSize]; omega, hzones⟩

theorem placeBitmap_bitmap (h : placeBitmap s z = some s')
    (hall : ∀ w, (s.zones w).bitmap < 2 ^ 29) (w : ZoneIdx) : (s'.zones w).bitmap < 2 ^ 29 := by
  simp only [placeBitmap] at h
  split at h
  · cases h
    exact hall w
  · split at h
    · cases h
    · rename_i ha
      obtain ⟨hptr, hzones⟩ := pmmEarlyAlloc_cases ha
      cases h
      by_cases hw : w = z
      · subst hw
        simp only [Phys.setZone, Function.update_self]
        exact hptr
      · simp only [Phys.setZone, Function.update_of_ne hw, hzones]
        exact hall w

theorem placeBitmaps_bitmap : ∀ {zs : List ZoneIdx} {s : Phys}, placeBitmaps zs s = some s' →
    (∀ w, (s.zones w).bitmap < 2 ^ 29) → ∀ w, (s'.zones w).bitmap < 2 ^ 29 := by
  intro zs
  induction zs with
  | nil =>
    intro s h hall
    cases h
    exact hall
  | cons z zs ih =>
    intro s h hall
    rw [placeBitmaps] at h
    split at h
    · cases h
    · rename_i hz
      exact ih h (placeBitmap_bitmap hz hall)

/-- An entry below the physical address limit ends there. -/
theorem MmapEntry.hi_le_of_below {e : MmapEntry}
    (h : e.baseAddr.toNat + e.length.toNat ≤ 2 ^ 52) : e.hi ≤ 2 ^ 40 := by
  have h1 := e.stop_eq
  have h2 := e.stop_eq_hi
  omega

/-- **`pmm_init` places them**, on every map of the machine. -/
theorem physInit_placed
    (hlim : ∀ e ∈ mmap, e.available = true → e.baseAddr.toNat + e.length.toNat ≤ 2 ^ 52)
    (hs : physInit mem mmap = some s) : s.Placed := by
  have hsim := sim_init hs
  have hfirst := firstPass mmap
  simp only [physInit, Option.map_eq_some_iff] at hs
  obtain ⟨s₂, hs₂, -⟩ := hs
  have hlow := placeBitmaps_bitmap hs₂ fun _ => Nat.two_pow_pos 29
  obtain ⟨top, hplace⟩ := placeBitmaps_spec (fun z => hfirst.span_pos) hs₂
  have hsim₂ := hplace.sim
  refine ⟨fun z => ?_, fun z => ?_⟩
  · rw [(hsim.like z).stop, hsim.layout.stop]
    rcases hfirst.end_from z with hend | ⟨e, he, hc, -, hend⟩
    · omega
    · rw [← hend]
      exact MmapEntry.hi_le_of_below (hlim e he hc.1)
  · -- the passes after the bitmap phase move no bitmap
    have hsame : (s.zones z).bitmap = (s₂.zones z).bitmap := by
      by_cases hb : (mmap.foldl addEntry emptyState).bitmapBytes z = 0
      · rw [hsim.null z hb, hsim₂.null z hb]
      · rw [hsim.placed z hb, hsim₂.placed z hb]
    rw [hsame]
    exact hlow z

/-! ## No free undoes an allocation -/

/-- The free that matches an allocator. -/
def Phys.release (s : Phys) (p : ℕ) : Request → Phys
  | .page => (s.freePage p).1
  | .pages count => s.freePages p count
  | .huge => s.freePages p 512

/-- It frees the pages of the block one by one. -/
theorem Phys.release_eq {p : ℕ} (hp : p ≠ 0) (hlt : p < 2 ^ 64) (hr : 0 < r.count) :
    s.release p r = (List.range r.count).foldl
      (fun s i => (s.freePage (add64 p (mul64 i pageSize))).1) s := by
  cases r with
  | page =>
    have hself : add64 p (mul64 0 pageSize) = p := by
      simp only [add64, mul64]
      omega
    rw [Request.count, List.range_one, List.foldl_cons, List.foldl_nil, hself]
    rfl
  | pages count =>
    have h0 : count ≠ 0 := Nat.pos_iff_ne_zero.1 hr
    rw [Phys.release, Phys.freePages, if_neg (by simp only [hp, h0, or_self, not_false_eq_true]),
      Request.count]
  | huge =>
    rw [Phys.release, Phys.freePages, if_neg (by simp only [hp, false_or]; decide), Request.count]

theorem Phys.release_used (s : Phys) (p : ℕ) (r : Request) (z : ZoneIdx) (idx : ℕ) :
    ((s.release p r).view.zones z).used idx = (s.view.zones z).used idx := by
  cases r with
  | page => rw [Phys.release, Phys.freePage_view, pmmFreePage_used]
  | pages count => rw [Phys.release, Phys.freePages_view, pmmFreePages_used]
  | huge => rw [Phys.release, Phys.freePages_view, pmmFreePages_used]

/-- One free raises the counter of a zone by one at most. -/
theorem Phys.freePage_free (s : Phys) (addr : ℕ) (z : ZoneIdx) :
    ((s.freePage addr).1.zones z).freePages = (s.zones z).freePages ∨
      ((s.freePage addr).1.zones z).freePages = add64 (s.zones z).freePages 1 := by
  rcases s.freePage_cases addr with heq | ⟨w, -, -, heq⟩
  · rw [heq]
    exact Or.inl rfl
  · rw [heq]
    by_cases hz : z = w
    · subst hz
      rw [Phys.setZone_self]
      exact Or.inr rfl
    · rw [Phys.setZone_of_ne hz]
      exact Or.inl rfl

/-- A page number above every zone is not found. -/
theorem Phys.Placed.freePage_above (h : s.Placed) {addr : ℕ} (ha : 2 ^ 40 ≤ addr / pageSize) :
    (s.freePage addr).1 = s := by
  refine Phys.freePage_of_not_refrees fun hc => ?_
  obtain ⟨-, w, -, hhit⟩ := hc
  have hend : addr / pageSize < (s.zones w).endPfn := hhit.2.1
  exact absurd (hend.trans_le (h.stop w)) (Nat.not_lt.2 ha)

/-- **Frees of which the first is above every zone** raise a counter less
often than there are of them. -/
theorem Phys.Placed.frees_free (h : s.Placed) (addr : ℕ → ℕ) (ha : 2 ^ 40 ≤ addr 0 / pageSize)
    (hlt : (s.zones z).freePages < 2 ^ 64) (m : ℕ) :
    ∃ k ≤ m,
      (((List.range (m + 1)).foldl (fun s i => (s.freePage (addr i)).1) s).zones z).freePages =
        ((s.zones z).freePages + k) % 2 ^ 64 := by
  induction m with
  | zero =>
    refine ⟨0, le_rfl, ?_⟩
    rw [Nat.zero_add, List.range_one, List.foldl_cons, List.foldl_nil, h.freePage_above ha,
      Nat.add_zero, Nat.mod_eq_of_lt hlt]
  | succ m ih =>
    obtain ⟨k, hk, heq⟩ := ih
    rw [List.range_succ, List.foldl_append, List.foldl_cons, List.foldl_nil]
    generalize (List.range (m + 1)).foldl (fun s i => (s.freePage (addr i)).1) s = t at heq ⊢
    rcases t.freePage_free (addr (m + 1)) z with hsame | hup
    · exact ⟨k, by omega, hsame.trans heq⟩
    · refine ⟨k + 1, by omega, ?_⟩
      rw [hup, heq, add64, Nat.mod_add_mod, Nat.add_assoc]

/-- The gate lets no more frames through than are counted. -/
theorem Request.Finds.count_le {zone : MemoryZone} (h : r.Finds zone pfn) :
    r.count ≤ zone.freePages := by
  have hgate := h.1
  cases r with
  | page =>
    rw [Request.skips, beq_eq_false_iff_ne] at hgate
    exact Nat.pos_of_ne_zero hgate
  | pages count =>
    rw [Request.skips, decide_eq_false_iff_not] at hgate
    exact Nat.le_of_not_lt hgate
  | huge =>
    rw [Request.skips, decide_eq_false_iff_not] at hgate
    exact Nat.le_of_not_lt hgate

theorem physToVirt_page (hpfn : pfn < 2 ^ 35) :
    physToVirt (pfn * pageSize) < 2 ^ 64 ∧
      2 ^ 40 ≤ add64 (physToVirt (pfn * pageSize)) (mul64 0 pageSize) / pageSize := by
  simp only [physToVirt, add64, mul64, kernelHigherHalf, pageSize]
  omega

/-- **The counter stays behind** where the block is below the top of the
direct map. -/
theorem Phys.Placed.counter_ne (h : s.Placed) (hfinds : r.Finds (s.view.zones z) pfn)
    (hr : 0 < r.count) (hpfn : pfn < 2 ^ 35) (hp : physToVirt (pfn * pageSize) ≠ 0) :
    (((s.take z pfn r.count).release (physToVirt (pfn * pageSize)) r).zones z).freePages ≠
      (s.zones z).freePages := by
  obtain ⟨hlay, hbitmap⟩ := s.take_layout z pfn r.count
  obtain ⟨hlt, habove⟩ := physToVirt_page hpfn
  have hplaced : (s.take z pfn r.count).Placed := h.congr hlay.stop hbitmap
  have hfree : ((s.take z pfn r.count).zones z).freePages =
      sub64 (s.zones z).freePages r.count := by
    rw [Phys.take_zones, Phys.setZone_self]
  have hle : r.count ≤ (s.zones z).freePages := hfinds.count_le
  have hword : sub64 (s.zones z).freePages r.count < 2 ^ 64 := sub64_lt _ _
  obtain ⟨k, hk, heq⟩ := hplaced.frees_free (z := z)
    (fun i => add64 (physToVirt (pfn * pageSize)) (mul64 i pageSize)) habove
    (hfree ▸ hword) (r.count - 1)
  rw [hfree, Nat.sub_add_cancel hr] at heq
  rw [Phys.release_eq hp hlt hr, heq]
  simp only [sub64]
  omega

/-- **The bit of a block past the direct map stays set**: no bitmap reaches
that far up. -/
theorem Phys.Placed.take_sets (h : s.Placed) (hrun : (s.view.zones z).FreeRun pfn n) (hn : 0 < n)
    (hpfn : 2 ^ 35 ≤ pfn) :
    ((s.take z pfn n).view.zones z).used (pfn - (s.zones z).basePfn) = true := by
  have hb : (s.zones z).basePfn ≤ pfn := hrun.base_le
  have he : pfn + n ≤ (s.zones z).endPfn := hrun.le_end
  have hstop := h.stop z
  have hbitmap := h.bitmap z
  have hout : ¬ InBlock pfn n ((s.zones z).bitAt (pfn - (s.zones z).basePfn)) := by
    simp only [InBlock, PhysZone.bitAt, pageSize]
    omega
  rw [Phys.take_used hb, if_neg hout, decide_eq_true ⟨le_rfl, by omega⟩, Bool.true_or]

/-- **No matching free restores the state before an allocation**, in any
state that calls lead to: a counter is behind, or the bit of the block's
first frame is still set. -/
theorem release_never_restores
    (hlim : ∀ e ∈ mmap, e.available = true → e.baseAddr.toNat + e.length.toNat ≤ 2 ^ 52)
    (hs : physInit mem mmap = some s₀) (cs : List Call) (r : Request)
    (hp : ((runFrom Phys.exec s₀ cs).alloc r).2 ≠ 0) :
    ¬ Restored (runFrom Phys.exec s₀ cs).view
      (((runFrom Phys.exec s₀ cs).alloc r).1.release ((runFrom Phys.exec s₀ cs).alloc r).2 r).view := by
  have hplaced : (runFrom Phys.exec s₀ cs).Placed :=
    runFrom_invariant (fun _ c h => h.exec c) cs (physInit_placed hlim hs)
  generalize runFrom Phys.exec s₀ cs = s at hplaced hp ⊢
  rintro ⟨hbits, hfree⟩
  rcases Nat.eq_zero_or_pos r.count with h0 | hpos
  · rw [(s.alloc_zero h0).1] at hp
    exact hp rfl
  rcases s.alloc_chooses hpos with ⟨z, pfn, hchoice, hres, -⟩ | ⟨-, hres, -⟩
  · rw [hres] at hp hbits hfree
    rcases Nat.lt_or_ge pfn (2 ^ 35) with hlow | hhigh
    · exact hplaced.counter_ne hchoice.finds hpos hlow hp (hfree z).symm
    · have hrun := Request.search_freeRun hchoice.finds.2
      have hb : (s.zones z).basePfn ≤ pfn := hrun.base_le
      have he : pfn + r.count ≤ (s.zones z).endPfn := hrun.le_end
      have hset := hplaced.take_sets hrun hpos hhigh
      have hclear := hrun.clear pfn le_rfl (by omega)
      have hidx : pfn - (s.zones z).basePfn < (s.view.zones z).span := by
        rw [Phys.view_span, PhysZone.span]
        omega
      have hsame := hbits z _ hidx
      rw [Phys.release_used, hset] at hsame
      exact Bool.noConfusion (hsame.symm.trans hclear)
  · rw [hres] at hp
    exact hp rfl

/-- The second page from 16 MB on, when the first is taken. -/
theorem release_never_restores_page :
    ((runFrom Phys.exec highPhys [.allocPage]).alloc .page).2 = 0xFFFF800001001000 ∧
      ¬ Restored (runFrom Phys.exec highPhys [.allocPage]).view
        (((runFrom Phys.exec highPhys [.allocPage]).alloc .page).1.release
          ((runFrom Phys.exec highPhys [.allocPage]).alloc .page).2 .page).view := by
  have hp : ((runFrom Phys.exec highPhys [.allocPage]).alloc .page).2 = 0xFFFF800001001000 := by
    decide +kernel
  exact ⟨hp, release_never_restores highMap_ok.below physInit_high [.allocPage] .page
    (by rw [hp]; decide)⟩

/-- **A page taken and given back stays taken**: its bit is set and the
counter is one short. The bitmap lies at 1 MB, the page at 16 MB. -/
theorem release_page_leaks :
    let p := (highPhys.alloc .page).2
    let t := (highPhys.alloc .page).1.release p .page
    physInit (fun _ => 0) highMap = some highPhys ∧ (highPhys.zones .dma32).bitmap = 0x100000 ∧
      p = 0xFFFF800001000000 ∧ (highPhys.view.zones .dma32).used 0 = false ∧
      (t.view.zones .dma32).used 0 = true ∧ (highPhys.zones .dma32).freePages = 2 ∧
      (t.zones .dma32).freePages = 1 ∧ ¬ Restored highPhys.view t.view := by
  have hbefore : (highPhys.zones .dma32).freePages = 2 := by decide +kernel
  have hafter : (((highPhys.alloc .page).1.release (highPhys.alloc .page).2 .page).zones
      .dma32).freePages = 1 := by decide +kernel
  refine ⟨physInit_high, by decide +kernel, by decide +kernel, by decide +kernel, by decide +kernel,
    hbefore, hafter, ?_⟩
  rintro ⟨-, hfree⟩
  have hsame := hfree .dma32
  rw [Phys.view_freePages, Phys.view_freePages, hbefore, hafter] at hsame
  exact absurd hsame (by decide)

end Pmm

end Kos
