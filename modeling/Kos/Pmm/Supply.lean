import Kos.Pmm.Accounting
/-!
# Pmm — what can still be handed out

A page is available while the bit of its frame is clear. Every page of a
block that is handed out was available and is not afterwards, and no call
makes a page available: a free clears no bit that is set. So the pages
that an allocation answers with are in no earlier block, whatever was
freed in between.
-/

namespace Kos

namespace Pmm

variable {s s' : State} {mmap : List MmapEntry} {page ptr : ℕ} {r : Request}

/-- **The page can still be handed out.** -/
def Available (s : State) (page : ℕ) : Prop :=
  ∃ z pfn, (s.zones z).FreeRun pfn 1 ∧ page = physToVirt (pfn * pageSize)

/-- `ptr + k * PAGE_SIZE`. -/
def blockPage (ptr k : ℕ) : ℕ := add64 ptr (mul64 k pageSize)

/-- **A step of the allocator**: the zones stay where they are, and nothing
becomes available. -/
structure Shrinks (s s' : State) : Prop where
  layout : SameLayout s' s
  available : ∀ page, Available s' page → Available s page

theorem Shrinks.refl (s : State) : Shrinks s s := ⟨SameLayout.refl s, fun _ h => h⟩

theorem Shrinks.trans {s'' : State} (h : Shrinks s s') (h' : Shrinks s' s'') : Shrinks s s'' :=
  ⟨h'.layout.trans h.layout, fun page hp => h.available page (h'.available page hp)⟩

/-- Bits that are only set. -/
theorem Shrinks.of_used (hlay : SameLayout s' s)
    (hused : ∀ z idx, (s.zones z).used idx = true → (s'.zones z).used idx = true) :
    Shrinks s s' := by
  refine ⟨hlay, ?_⟩
  rintro page ⟨z, pfn, hrun, heq⟩
  refine ⟨z, pfn, ⟨?_, ?_, fun f h1 h2 => ?_⟩, heq⟩
  · rw [← hlay.base]
    exact hrun.base_le
  · rw [← hlay.stop]
    exact hrun.le_end
  · have hclear := hrun.clear f h1 h2
    rw [hlay.base] at hclear
    by_contra hset
    rw [hused z _ (by simpa using hset)] at hclear
    cases hclear

/-! ## Pages and frames -/

theorem blockPage_frame {pfn k : ℕ} :
    blockPage (physToVirt (pfn * pageSize)) k = physToVirt ((pfn + k) * pageSize) := by
  simp only [blockPage, physToVirt, add64, mul64, pageSize]
  omega

theorem virtToPhys_frame {pfn : ℕ} (h : pfn < 2 ^ 40) :
    virtToPhys (physToVirt (pfn * pageSize)) = pfn * pageSize := by
  refine virtToPhys_physToVirt ?_
  simp only [pageSize]
  omega

/-- A page has one frame. -/
theorem frame_inj {pfn pfn' : ℕ} (h : pfn < 2 ^ 40) (h' : pfn' < 2 ^ 40)
    (heq : physToVirt (pfn * pageSize) = physToVirt (pfn' * pageSize)) : pfn = pfn' := by
  have hphys := congrArg virtToPhys heq
  rw [virtToPhys_frame h, virtToPhys_frame h'] at hphys
  exact Nat.eq_of_mul_eq_mul_right (by decide) hphys

section Layout

variable (hok : MapOk mmap) (hlay : SameLayout s (pmmInit mmap))
include hok hlay

theorem MemoryZone.FreeRun.lt {z : ZoneIdx} {pfn n : ℕ} (h : (s.zones z).FreeRun pfn n) :
    pfn + n ≤ 2 ^ 40 := by
  have hend := hok.initSpec.end_le z
  rw [← hlay.stop] at hend
  exact h.le_end.trans hend

/-- **The address of an available page.** -/
theorem Available.addr (h : Available s page) :
    page < 2 ^ 64 ∧ page % pageSize = 0 ∧ virtToPhys page < 2 ^ 52 ∧
      virtToPhys page % pageSize = 0 := by
  obtain ⟨z, pfn, hrun, heq⟩ := h
  have hle := hrun.lt hok hlay
  have hlt : pfn < 2 ^ 40 := Nat.lt_of_succ_le hle
  rw [heq, virtToPhys_frame hlt]
  clear heq
  refine ⟨add64_lt _ _, ?_, ?_, Nat.mul_mod_left ..⟩
  · simp only [physToVirt, add64, kernelHigherHalf, pageSize]
    omega
  · simp only [pageSize]
    omega

/-- **A frame that is marked is not available**: it is in no other zone. -/
theorem not_available_of_used {z : ZoneIdx} {pfn : ℕ} (hb : (s.zones z).basePfn ≤ pfn)
    (he : pfn < (s.zones z).endPfn) (hused : (s.zones z).used (pfn - (s.zones z).basePfn) = true) :
    ¬ Available s (physToVirt (pfn * pageSize)) := by
  rintro ⟨w, pfn', hrun, heq⟩
  have hend := hok.initSpec.end_le z
  rw [← hlay.stop] at hend
  have hle := hrun.lt hok hlay
  obtain rfl : pfn = pfn' := frame_inj (he.trans_le hend) (Nat.lt_of_succ_le hle) heq
  by_cases hw : w = z
  · subst hw
    rw [hrun.clear pfn le_rfl (Nat.lt_succ_self pfn)] at hused
    cases hused
  · have hapart := hok.initSpec.apart w z pfn hw
    rw [← hlay.base, ← hlay.stop, ← hlay.base, ← hlay.stop] at hapart
    exact hapart hrun.base_le (Nat.lt_of_succ_le hrun.le_end) ⟨hb, he⟩

/-! ## Allocations -/

/-- **What an allocation does**: the pages of the block it answers with
were available and are not any more. -/
structure Grants (s : State) (count : ℕ) (out : State × ℕ) : Prop where
  shrinks : Shrinks s out.1
  pages : out.2 ≠ 0 → ∀ k < count,
    Available s (blockPage out.2 k) ∧ ¬ Available out.1 (blockPage out.2 k)

theorem allocFrom_grants (r : Request) (zs : List ZoneIdx) :
    Grants s r.count (allocFrom r zs s) := by
  obtain heq | ⟨z, pfn, hrun, heq⟩ := allocFrom_cases r zs s
  · rw [heq]
    exact ⟨Shrinks.refl s, fun hc => absurd rfl hc⟩
  · have hmark : SameLayout (s.setZone z ((s.zones z).mark pfn r.count)) s :=
      SameLayout.setZone mark_basePfn mark_endPfn mark_totalPages
    have hle := hrun.lt hok hlay
    have hb := hrun.base_le
    have he := hrun.le_end
    rw [heq]
    refine ⟨Shrinks.of_used hmark fun w idx hused => ?_, fun _ k hk => ⟨?_, ?_⟩⟩
    · by_cases hw : w = z
      · subst hw
        rw [State.setZone_self, mark_used hb]
        exact Or.inl hused
      · rw [State.setZone_of_ne hw]
        exact hused
    · refine ⟨z, pfn + k, ⟨by omega, by omega, fun f h1 h2 => ?_⟩, blockPage_frame⟩
      exact hrun.clear f (by omega) (by omega)
    · rw [blockPage_frame]
      refine not_available_of_used hok (hmark.trans hlay) (z := z) ?_ ?_ ?_
      · rw [State.setZone_self, mark_basePfn]
        omega
      · rw [State.setZone_self, mark_endPfn]
        omega
      · rw [State.setZone_self, mark_used hb, mark_basePfn]
        exact Or.inr ⟨by omega, by omega⟩

/-- **Every allocator** grants what it answers with. -/
theorem Request.exec_grants (r : Request) : Grants s r.count (r.exec s) := by
  cases r with
  | page => exact allocFrom_grants hok hlay .page allocOrder
  | huge => exact allocFrom_grants hok hlay .huge allocOrder
  | pages count =>
    simp only [Request.exec, pmmAllocPages]
    split
    · exact ⟨Shrinks.refl s, fun hc => absurd rfl hc⟩
    · split
      · rename_i hone
        have hgrants := allocFrom_grants hok hlay .page allocOrder
        rw [hone]
        exact hgrants
      · exact allocFrom_grants hok hlay (.pages count) allocOrder

end Layout

/-! ## Frees -/

theorem pmmFreePage_shrinks (s : State) (addr : ℕ) : Shrinks s (pmmFreePage s addr).1 := by
  refine Shrinks.of_used ?_ fun z idx hused => by rw [pmmFreePage_used, hused]
  obtain heq | ⟨z, -, heq⟩ := pmmFreePage_cases s addr
  · rw [heq]
    exact SameLayout.refl s
  · rw [heq]
    exact SameLayout.setZone refree_basePfn refree_endPfn refree_totalPages

theorem pmmFreePages_shrinks (s : State) (addr count : ℕ) :
    Shrinks s (pmmFreePages s addr count) := by
  unfold pmmFreePages
  split
  · exact Shrinks.refl s
  · exact runFrom_invariant (P := Shrinks s)
      (fun t i h => h.trans (pmmFreePage_shrinks t _)) _ (Shrinks.refl s)

/-! ## One page after another -/

/-- **A page allocator**: the calls others make, on states of any kind. -/
structure Allocator (σ : Type) where
  allocPage : σ → σ × ℕ
  alloc : σ → Request → σ × ℕ
  freePage : σ → ℕ → σ
  freePages : σ → ℕ → ℕ → σ

/-- The one with private bitmaps. -/
def privateBitmaps : Allocator State where
  allocPage := pmmAllocPage
  alloc := Request.exec
  freePage := fun s addr => (pmmFreePage s addr).1
  freePages := pmmFreePages

@[simp] theorem privateBitmaps_allocPage : privateBitmaps.allocPage = pmmAllocPage := rfl

section Answers

variable {σ : Type} {alloc : σ → σ × ℕ}

/-- The answers of `n` calls of `pmm_alloc_page`. -/
def answers (alloc : σ → σ × ℕ) : ℕ → σ → List ℕ
  | 0, _ => []
  | n + 1, s => (alloc s).2 :: answers alloc n (alloc s).1

/-- The allocator after them. -/
def afterPages (alloc : σ → σ × ℕ) : ℕ → σ → σ
  | 0, s => s
  | n + 1, s => afterPages alloc n (alloc s).1

@[simp] theorem answers_length (n : ℕ) (s : σ) : (answers alloc n s).length = n := by
  induction n generalizing s with
  | zero => rfl
  | succ n ih => rw [answers, List.length_cons, ih]

theorem answers_drop {n k : ℕ} (hk : k ≤ n) (s : σ) :
    (answers alloc n s).drop k = answers alloc (n - k) (afterPages alloc k s) := by
  induction k generalizing n s with
  | zero => rfl
  | succ k ih =>
    cases n with
    | zero => omega
    | succ n =>
      rw [answers, List.drop_succ_cons, ih (by omega), Nat.add_sub_add_right]
      rfl

theorem answers_take {n k : ℕ} (hk : k ≤ n) (s : σ) :
    (answers alloc n s).take k = answers alloc k s := by
  induction k generalizing n s with
  | zero => rfl
  | succ k ih =>
    cases n with
    | zero => omega
    | succ n => rw [answers, List.take_succ_cons, ih (by omega), answers]

theorem afterPages_add (n k : ℕ) (s : σ) :
    afterPages alloc (n + k) s = afterPages alloc k (afterPages alloc n s) := by
  induction n generalizing s with
  | zero => rw [Nat.zero_add, afterPages]
  | succ n ih => rw [Nat.succ_add, afterPages, ih, afterPages]

end Answers

section Layout

variable (hok : MapOk mmap)
include hok

theorem pmmAllocPage_grants (hlay : SameLayout s (pmmInit mmap)) : Grants s 1 (pmmAllocPage s) :=
  Request.exec_grants hok hlay .page

/-- The page that is answered was available and is not any more. -/
theorem pmmAllocPage_page (hlay : SameLayout s (pmmInit mmap)) (hne : (pmmAllocPage s).2 ≠ 0) :
    Available s (pmmAllocPage s).2 ∧ ¬ Available (pmmAllocPage s).1 (pmmAllocPage s).2 := by
  have hself : blockPage (pmmAllocPage s).2 0 = (pmmAllocPage s).2 := by
    obtain heq | ⟨z, pfn, hrun, heq⟩ := allocFrom_cases .page allocOrder s
    · exact absurd (congrArg Prod.snd heq) hne
    · rw [show (pmmAllocPage s).2 = _ from congrArg Prod.snd heq, blockPage_frame]
      rfl
  have hpages := (pmmAllocPage_grants hok hlay).pages hne 0 Nat.one_pos
  rwa [hself] at hpages

theorem afterPages_shrinks (hlay : SameLayout s (pmmInit mmap)) (n : ℕ) :
    Shrinks s (afterPages pmmAllocPage n s) := by
  induction n generalizing s with
  | zero => exact Shrinks.refl s
  | succ n ih =>
    have hfirst := (pmmAllocPage_grants hok hlay).shrinks
    exact hfirst.trans (ih (hfirst.layout.trans hlay))

/-- **What is answered was available**, and is not after it was answered. -/
theorem answers_available (hlay : SameLayout s (pmmInit mmap)) {n : ℕ}
    (hp : page ∈ answers pmmAllocPage n s) (hne : page ≠ 0) :
    Available s page ∧ ¬ Available (afterPages pmmAllocPage n s) page := by
  induction n generalizing s with
  | zero => cases hp
  | succ n ih =>
    have hfirst := (pmmAllocPage_grants hok hlay).shrinks
    have hlay' := hfirst.layout.trans hlay
    obtain rfl | hp := List.mem_cons.1 hp
    · obtain ⟨hav, hgone⟩ := pmmAllocPage_page hok hlay hne
      exact ⟨hav, fun hc => hgone ((afterPages_shrinks hok hlay' n).available _ hc)⟩
    · obtain ⟨hav, hgone⟩ := ih hlay' hp
      exact ⟨hfirst.available _ hav, hgone⟩

/-- What is answered before the others is not available with them. -/
theorem not_available_of_consumed (hlay : SameLayout s (pmmInit mmap)) {n k : ℕ} (hk : k ≤ n)
    (hp : page ∈ answers pmmAllocPage n s)
    (hrest : page ∉ answers pmmAllocPage (n - k) (afterPages pmmAllocPage k s)) (hne : page ≠ 0) :
    ¬ Available (afterPages pmmAllocPage k s) page := by
  rw [← List.take_append_drop k (answers pmmAllocPage n s), List.mem_append, answers_take hk,
    answers_drop hk] at hp
  exact (answers_available hok hlay (hp.resolve_right hrest) hne).2

/-- **No page is answered twice.** -/
theorem answers_once (hlay : SameLayout s (pmmInit mmap)) (n : ℕ) :
    (answers pmmAllocPage n s).Pairwise fun a b => a ≠ 0 → a ≠ b := by
  induction n generalizing s with
  | zero => exact List.Pairwise.nil
  | succ n ih =>
    have hlay' := (pmmAllocPage_grants hok hlay).shrinks.layout.trans hlay
    refine List.pairwise_cons.2 ⟨?_, ih hlay'⟩
    rintro b hb hne rfl
    exact (pmmAllocPage_page hok hlay hne).2 (answers_available hok hlay' hb hne).1

end Layout

end Pmm

end Kos
