import Kos.Pmm.Model
import Kos.Common.FreeCount
/-!
# Pmm — what a locked section can do

Every change to a zone after `pmm_init` happens in one of two locked
sections. This file says once what each of them does: an allocation
takes a run of clear bits inside the zone and sets exactly those, and a
free that goes through leaves every bit as it was and raises the
counter. Everything proved about runs is read off these two.
-/

namespace Kos

namespace Pmm

variable {s s' : State} {z w : ZoneIdx} {zone : MemoryZone} {pfn count : ℕ} {r : Request}

/-! ## The searches -/

/-- **A run of clear frames inside a zone.** What every search promises. -/
structure MemoryZone.FreeRun (zone : MemoryZone) (pfn count : ℕ) : Prop where
  base_le : zone.basePfn ≤ pfn
  le_end : pfn + count ≤ zone.endPfn
  clear : ∀ f, pfn ≤ f → f < pfn + count → zone.used (f - zone.basePfn) = false

theorem findPage_freeRun (h : findPage zone = some pfn) : zone.FreeRun pfn 1 := by
  have hmem := List.mem_of_find?_eq_some h
  have hclear := List.find?_some h
  simp only [List.mem_range'_1, MemoryZone.span] at hmem
  refine ⟨hmem.1, by omega, fun f h1 h2 => ?_⟩
  rw [show f = pfn by omega]
  simpa using hclear

/-- The scan's accumulators describe the clear frames just passed: the
`consecutive` frames before the next one are clear, and `startPfn` is the
first of them. -/
theorem scanRun_freeRun {n : ℕ} : ∀ {p consecutive startPfn : ℕ},
    p + n ≤ zone.endPfn → zone.basePfn + consecutive ≤ p →
    (0 < consecutive → startPfn + consecutive = p) →
    (∀ f, p - consecutive ≤ f → f < p → zone.used (f - zone.basePfn) = false) →
    scanRun zone count (List.range' p n) consecutive startPfn = some pfn →
    zone.FreeRun pfn count := by
  induction n with
  | zero =>
    intro p c st _ _ _ _ h
    simp [scanRun] at h
  | succ n ih =>
    intro p c st hend hbase hst hclear h
    rw [List.range'_succ, scanRun] at h
    by_cases hu : zone.used (p - zone.basePfn) = true
    · simp only [hu, Bool.not_true, Bool.false_eq_true, if_false] at h
      exact ih (by omega) (by omega) (by omega) (fun f _ _ => by omega) h
    · have hp : zone.used (p - zone.basePfn) = false := by simpa using hu
      simp only [hp, Bool.not_false, if_true] at h
      -- the frames clear up to and including `p`
      have hclear' : ∀ f, p + 1 - (c + 1) ≤ f → f < p + 1 →
          zone.used (f - zone.basePfn) = false := by
        intro f h1 h2
        rcases Nat.lt_or_ge f p with hf | hf
        · exact hclear f (by omega) hf
        · rw [show f = p by omega]; exact hp
      have hst' : (if c = 0 then p else st) + (c + 1) = p + 1 := by
        split <;> omega
      by_cases hdone : c + 1 ≥ count
      · rw [if_pos hdone, Option.some.injEq] at h
        subst h
        refine ⟨by omega, by omega, fun f h1 h2 => hclear' f (by omega) (by omega)⟩
      · rw [if_neg hdone] at h
        exact ih (by omega) (by omega) (fun _ => hst') hclear' h

theorem findRun_freeRun (h : findRun count zone = some pfn) : zone.FreeRun pfn count := by
  rcases Nat.le_total zone.endPfn zone.basePfn with hle | hle
  · have hspan : zone.span = 0 := Nat.sub_eq_zero_of_le hle
    simp [findRun, hspan, scanRun] at h
  · have hspan : zone.basePfn + zone.span = zone.endPfn := Nat.add_sub_cancel' hle
    exact scanRun_freeRun (by omega) (by omega) (by omega) (fun f _ _ => by omega) h

theorem findHuge_freeRun (h : findHuge zone = some pfn) : zone.FreeRun pfn 512 := by
  have hmem := List.mem_of_find?_eq_some h
  have hall := List.find?_some h
  simp only [List.mem_map, List.mem_range] at hmem
  obtain ⟨k, hk, rfl⟩ := hmem
  simp only [hugeFree, List.all_eq_true, List.mem_range, Bool.and_eq_true, decide_eq_true_eq,
    Bool.not_eq_true'] at hall
  have hlast := (hall 511 (by omega)).1
  simp only [MemoryZone.span] at hk hlast
  refine ⟨by omega, by omega, fun f h1 h2 => ?_⟩
  have hf := (hall (f - (zone.basePfn + 512 * k)) (by omega)).2
  rwa [show zone.basePfn + 512 * k + (f - (zone.basePfn + 512 * k)) = f by omega] at hf

/-- **Whatever a request finds is a clear run of its length.** -/
theorem Request.search_freeRun (h : r.search zone = some pfn) : zone.FreeRun pfn r.count := by
  cases r with
  | page => exact findPage_freeRun h
  | pages count => exact findRun_freeRun h
  | huge => exact findHuge_freeRun h

/-! ## Marking -/

theorem used_foldl_set (bm : Bitmap) (a count idx : ℕ) :
    bitmapTest ((List.range count).foldl (fun bm j => bitmapSet bm (a + j)) bm) idx = true ↔
      bitmapTest bm idx = true ∨ (a ≤ idx ∧ idx < a + count) := by
  induction count with
  | zero => simp
  | succ n ih =>
    rw [List.range_succ, List.foldl_append]
    simp only [List.foldl_cons, List.foldl_nil, bitmapTest_set, Bool.or_eq_true,
      decide_eq_true_eq, ih]
    by_cases hb : bitmapTest bm idx = true
    · simp [hb]
    · simp only [hb, false_or, Bool.false_eq_true]
      omega

@[simp] theorem mark_basePfn : (zone.mark pfn count).basePfn = zone.basePfn := rfl

@[simp] theorem mark_endPfn : (zone.mark pfn count).endPfn = zone.endPfn := rfl

@[simp] theorem mark_totalPages : (zone.mark pfn count).totalPages = zone.totalPages := rfl

@[simp] theorem mark_span : (zone.mark pfn count).span = zone.span := rfl

@[simp] theorem mark_freePages : (zone.mark pfn count).freePages = sub64 zone.freePages count :=
  rfl

/-- **Marking sets the bits of the run and no others.** -/
theorem mark_used (hb : zone.basePfn ≤ pfn) (idx : ℕ) :
    (zone.mark pfn count).used idx = true ↔
      zone.used idx = true ∨ (pfn - zone.basePfn ≤ idx ∧ idx < pfn - zone.basePfn + count) := by
  have hidx : (fun (bm : Bitmap) j => bitmapSet bm (pfn + j - zone.basePfn)) =
      fun bm j => bitmapSet bm (pfn - zone.basePfn + j) := by
    funext bm j
    rw [Nat.sub_add_comm hb]
  simp only [MemoryZone.used, MemoryZone.mark, hidx]
  exact used_foldl_set _ _ _ _

/-- Marking a clear run lowers the number of clear bits by its length. -/
theorem freeCount_mark (h : zone.FreeRun pfn count) :
    freeCount (zone.mark pfn count).used zone.span + count = freeCount zone.used zone.span := by
  have hb := h.base_le
  have he := h.le_end
  refine freeCount_take (s := pfn - zone.basePfn) (by unfold MemoryZone.span; omega) ?_ ?_
  · intro i h1 h2
    have := h.clear (zone.basePfn + i) (by omega) (by omega)
    rwa [Nat.add_sub_cancel_left] at this
  · intro i _
    exact mark_used hb i

/-! ## The two sections -/

/-- **All an allocation can do under the lock.** -/
theorem lockedAlloc_cases (h : lockedAlloc r z s = some (pfn, s')) :
    (s.zones z).FreeRun pfn r.count ∧ s' = s.setZone z ((s.zones z).mark pfn r.count) := by
  unfold lockedAlloc at h
  split at h
  · cases h
  · rename_i p hp
    simp only [Option.some.injEq, Prod.mk.injEq] at h
    obtain ⟨rfl, rfl⟩ := h
    exact ⟨Request.search_freeRun hp, rfl⟩

/-- **The frame a free goes through for has a clear bit.** -/
def FreeHits (s : State) (z : ZoneIdx) (pfn : ℕ) : Prop :=
  (s.zones z).basePfn ≤ pfn ∧ pfn < (s.zones z).endPfn ∧
    (s.zones z).used (pfn - (s.zones z).basePfn) = false

instance : Decidable (FreeHits s z pfn) := inferInstanceAs (Decidable (_ ∧ _ ∧ _))

/-- The zone after a free went through. -/
def MemoryZone.refree (zone : MemoryZone) (pfn : ℕ) : MemoryZone :=
  { zone with
    bitmap := bitmapClear zone.bitmap (pfn - zone.basePfn)
    freePages := add64 zone.freePages 1 }

/-- **All a free can do under the lock**: it goes through exactly for a
frame whose bit is already clear. -/
theorem lockedFree_cases (h : lockedFree z pfn s = .freed s') :
    FreeHits s z pfn ∧ s' = s.setZone z ((s.zones z).refree pfn) := by
  simp only [lockedFree] at h
  by_cases hr : (s.zones z).basePfn ≤ pfn ∧ pfn < (s.zones z).endPfn
  · have hidx : ¬ (pfn - (s.zones z).basePfn ≥ (s.zones z).span) := by
      unfold MemoryZone.span; omega
    rw [if_pos hr, if_neg hidx] at h
    by_cases hu : (s.zones z).used (pfn - (s.zones z).basePfn) = true
    · rw [if_pos hu] at h
      cases h
    · rw [if_neg hu, FreeOutcome.freed.injEq] at h
      exact ⟨⟨hr.1, hr.2, by simpa using hu⟩, h.symm⟩
  · rw [if_neg hr] at h
    cases h

theorem lockedFree_of_hits (h : FreeHits s z pfn) :
    lockedFree z pfn s = .freed (s.setZone z ((s.zones z).refree pfn)) := by
  obtain ⟨hb, he, hu⟩ := h
  have hidx : ¬ (pfn - (s.zones z).basePfn ≥ (s.zones z).span) := by
    unfold MemoryZone.span; omega
  simp [lockedFree, hb, he, hu, hidx, MemoryZone.refree]

@[simp] theorem refree_basePfn : (zone.refree pfn).basePfn = zone.basePfn := rfl

@[simp] theorem refree_endPfn : (zone.refree pfn).endPfn = zone.endPfn := rfl

@[simp] theorem refree_totalPages : (zone.refree pfn).totalPages = zone.totalPages := rfl

@[simp] theorem refree_span : (zone.refree pfn).span = zone.span := rfl

@[simp] theorem refree_freePages : (zone.refree pfn).freePages = add64 zone.freePages 1 := rfl

/-- **A free changes no bit.** It clears one that was clear. -/
theorem refree_used (h : zone.used (pfn - zone.basePfn) = false) (idx : ℕ) :
    (zone.refree pfn).used idx = zone.used idx := by
  simp only [MemoryZone.used, MemoryZone.refree, bitmapTest_clear] at h ⊢
  by_cases hi : idx = pfn - zone.basePfn
  · rw [hi, h]; rfl
  · simp [hi]

end Pmm

end Kos
