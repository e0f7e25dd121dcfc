import Kos.Kmalloc.Blocks
/-!
# Kmalloc — what a call writes

Which object a class serves next is read off its free list and the
page allocator's answer. Everything a small request writes is that
object's mark, the bytes it clears after it and, where a page is split,
that page. The link of the object is read and not written.
-/

namespace Kos

namespace Kmalloc

variable {h : Heap} {mem : ByteMem} {i : Fin 8} {size answer x : ℕ}

/-- The object the class serves next; `0` where there is none. -/
def nextObject (h : Heap) (i : Fin 8) (answer : ℕ) : ℕ :=
  if ((ready h).slabs i).freeList ≠ 0 then ((ready h).slabs i).freeList else answer

/-- A request is answered by splitting a page. -/
def Splits (h : Heap) (i : Fin 8) (answer : ℕ) : Prop :=
  ((ready h).slabs i).freeList = 0 ∧ answer ≠ 0

instance : Decidable (Splits h i answer) := inferInstanceAs (Decidable (_ ∧ _))

/-- The caches have the sizes of the classes, once they are set up. -/
def Sized (h : Heap) : Prop := ∀ i, ((ready h).slabs i).size = sizes i

theorem ready_mem (h : Heap) : (ready h).mem = h.mem := by
  unfold ready
  split <;> rfl

theorem ready_of_initialized (hi : h.initialized = true) : ready h = h := if_pos hi

theorem ready_initialized (h : Heap) : (ready h).initialized = true := by
  unfold ready
  split
  · assumption
  · rfl

theorem ready_setMem (h : Heap) (mem : ByteMem) :
    (ready { h with mem := mem }).slabs = (ready h).slabs := by
  unfold ready
  split <;> rfl

/-- Writing to memory keeps the sizes of the caches. -/
theorem Sized.setMem (hsz : Sized h) (mem : ByteMem) : Sized { h with mem := mem } := by
  intro i
  rw [ready_setMem]
  exact hsz i

/-- What is served next is read off the cache. -/
theorem nextObject_congr {h' : Heap} (answer : ℕ) (hs : (ready h').slabs i = (ready h).slabs i) :
    nextObject h' i answer = nextObject h i answer ∧ (Splits h' i answer ↔ Splits h i answer) := by
  unfold nextObject Splits
  rw [hs]
  exact ⟨rfl, Iff.rfl⟩

/-- Splitting a page writes inside it. -/
theorem buildList_of_not_mem {page : ℕ} (hx : ¬ (page ≤ x ∧ x < page + pageSize)) :
    buildList mem page (sizes i) x = mem x := by
  obtain ⟨hobjs, htwo⟩ := sizes_objs i
  have hge := sizes_ge i
  have hloop : ∀ n ≤ pageSize / sizes i, ((List.range n).foldl (fun mem k =>
      writeHeader mem (page + k * sizes i) (page + (k + 1) * sizes i) 0 0) mem) x = mem x := by
    intro n
    induction n with
    | zero => exact fun _ => rfl
    | succ n ih =>
      intro hn
      have hslot := slot_le (c := sizes i) hn
      rw [List.range_succ, List.foldl_append, List.foldl_cons, List.foldl_nil,
        writeHeader_of_not_mem (by simp only [headerSize]; omega), ih (by omega)]
  have hlast := slot_le (c := sizes i) (show pageSize / sizes i - 1 < pageSize / sizes i by omega)
  simp only [buildList]
  rw [writeHeader_of_not_mem (by simp only [headerSize]; omega), hloop _ (by omega)]

/-- **What serving a small request does.** -/
structure Serves (h : Heap) (i : Fin 8) (size answer : ℕ) (r : Result) : Prop where
  initialized : r.heap.initialized = true
  ptr : r.ptr = if nextObject h i answer = 0 then 0 else nextObject h i answer + headerSize
  sized : Sized r.heap
  others : ∀ j, j ≠ i → ((ready r.heap).slabs j) = (ready h).slabs j
  zero : r.ptr ≠ 0 → ∀ x, r.ptr ≤ x → x < r.ptr + size → r.heap.mem x = 0
  frame : ∀ x, (Splits h i answer → ¬ (answer ≤ x ∧ x < answer + pageSize)) →
    (r.ptr ≠ 0 → ¬ (nextObject h i answer + 8 ≤ x ∧ x < nextObject h i answer + headerSize + size)) →
    r.heap.mem x = h.mem x

/-- Handing out the first free object of a class. -/
theorem takeObject_spec (g : Heap) (i : Fin 8) :
    (takeObject g i).2 = (g.slabs i).freeList + headerSize ∧
      (takeObject g i).1.initialized = g.initialized ∧
      (∀ j, ((takeObject g i).1.slabs j).size = (g.slabs j).size) ∧
      (∀ j, j ≠ i → (takeObject g i).1.slabs j = g.slabs j) ∧
      ∀ x, ¬ ((g.slabs i).freeList + 8 ≤ x ∧ x < (g.slabs i).freeList + headerSize) →
        (takeObject g i).1.mem x = g.mem x := by
  simp only [takeObject, headerSize]
  refine ⟨trivial, rfl, ?_, ?_, ?_⟩
  · intro j
    exact setSlab_size (by rfl) j
  · intro j hj
    exact Function.update_of_ne hj ..
  · intro x hx
    rw [ByteMem.store_of_not_mem (by omega), ByteMem.store_of_not_mem (by omega)]

theorem takeObject_ne_zero (g : Heap) (i : Fin 8) : (takeObject g i).2 ≠ 0 := Nat.succ_ne_zero _

/-- What is served from a heap that was set up, once the block is cleared. -/
theorem serves_of_take {g : Heap} {request : Option ℕ} (hi : g.initialized = true)
    (hsz : ∀ j, (g.slabs j).size = sizes j) (hothers : ∀ j, j ≠ i → g.slabs j = (ready h).slabs j)
    (hobj : (g.slabs i).freeList = nextObject h i answer) (hne : nextObject h i answer ≠ 0)
    (hmem : ∀ x, (Splits h i answer → ¬ (answer ≤ x ∧ x < answer + pageSize)) → g.mem x = h.mem x) :
    Serves h i size answer ⟨{ (takeObject g i).1 with
      mem := (takeObject g i).1.mem.fill (takeObject g i).2 size 0 }, (takeObject g i).2, request⟩ := by
  obtain ⟨hptr, hinit, hsizes, hslabs, htake⟩ := takeObject_spec g i
  rw [hobj] at hptr htake
  have hready : ∀ mem', ready { (takeObject g i).1 with mem := mem' } =
      { (takeObject g i).1 with mem := mem' } := fun mem' => ready_of_initialized (hinit.trans hi)
  refine ⟨hinit.trans hi, ?_, ?_, ?_, ?_, ?_⟩
  · rw [if_neg hne]
    exact hptr
  · intro j
    rw [hready]
    exact (hsizes j).trans (hsz j)
  · intro j hj
    rw [hready]
    exact (hslabs j hj).trans (hothers j hj)
  · intro _ x h1 h2
    exact if_pos ⟨h1, h2⟩
  · intro x hsplit hblock
    have hout := hblock (by simp only [hptr]; omega)
    simp only [headerSize] at hout hptr htake
    change ByteMem.fill _ _ _ _ x = _
    rw [ByteMem.fill_of_not_mem (by omega), htake x (by omega), hmem x hsplit]

/-- **A small request of `kzalloc`.** -/
theorem kzalloc_serves (hsz : Sized h) (hu : useOf size = .slab i) (hne : size ≠ 0) :
    Serves h i size answer (kzalloc h size answer) := by
  have hi := ready_initialized h
  have hout := kmalloc_outcome hsz size answer
  unfold kzalloc
  simp only
  generalize kmalloc h size answer = r at hout ⊢
  cases hout with
  | null request hreq hsmall =>
    obtain ⟨hlist, ha⟩ := hsmall i hu hne
    have hnone : nextObject h i answer = 0 := by
      rw [nextObject, if_neg (not_not.2 hlist), ha]
    have hready : ready (ready h) = ready h := ready_of_initialized hi
    rw [if_neg (not_not.2 rfl)]
    refine ⟨hi, ?_, ?_, ?_, fun hc => absurd rfl hc, fun x _ _ => ?_⟩
    · rw [if_pos hnone]
    · intro j
      rw [hready]
      exact hsz j
    · intro j _
      rw [hready]
    · rw [ready_mem]
  | large hsize hans =>
    rw [hu] at hsize
    cases hsize
  | take j hsize _ hlist =>
    obtain rfl : j = i := Use.slab.inj (hsize.symm.trans hu)
    have hobj : ((ready h).slabs j).freeList = nextObject h j answer := by
      rw [nextObject, if_pos hlist]
    rw [if_pos (takeObject_ne_zero _ _)]
    exact serves_of_take hi hsz (fun _ _ => rfl) hobj (by rw [← hobj]; exact hlist)
      fun x _ => by rw [ready_mem]
  | carve j hsize _ hlist hans =>
    obtain rfl : j = i := Use.slab.inj (hsize.symm.trans hu)
    have hobj : nextObject h j answer = answer := by
      rw [nextObject, if_neg (not_not.2 hlist)]
    have hcarved : ((carve (ready h) j answer).slabs j).freeList = answer := by
      simp [carve, Heap.setSlab]
    rw [if_pos (takeObject_ne_zero _ _)]
    refine serves_of_take hi (fun k => ?_) (fun k hk => ?_) (hcarved.trans hobj.symm)
      (by rw [hobj]; exact hans) fun x hx => ?_
    · exact (setSlab_size (g := ready h) (by rfl) k).trans (hsz k)
    · exact Function.update_of_ne hk ..
    · simp only [carve]
      rw [hsz j, buildList_of_not_mem (hx ⟨hlist, hans⟩), ready_mem]

/-- A small request that is not served leaves the heap as it is. -/
theorem kzalloc_null (hsz : Sized h) (hu : useOf size = .slab i) (hne : size ≠ 0)
    (hnone : nextObject h i answer = 0) : (kzalloc h size answer).heap = ready h := by
  have hptr : (kzalloc h size answer).ptr = 0 := by
    rw [(kzalloc_serves hsz hu hne).ptr, if_pos hnone]
  rw [(kzalloc_eq h size answer).1] at hptr
  have hout := kmalloc_outcome hsz size answer
  unfold kzalloc
  simp only
  generalize kmalloc h size answer = r at hout hptr ⊢
  rw [if_neg (not_not.2 hptr)]
  cases hout with
  | null => rfl
  | large _ hans => exact absurd hptr hans
  | take => exact absurd hptr (takeObject_ne_zero _ _)
  | carve => exact absurd hptr (takeObject_ne_zero _ _)

/-- **An object that was handed out**: it has its mark, and its class counts
it. -/
structure HandsOut (h : Heap) (i : Fin 8) (o : ℕ) (h' : Heap) : Prop where
  marked : Marked h'.mem i o
  allocations : (h'.slabs i).allocations = add64 ((ready h).slabs i).allocations 1
  frees : (h'.slabs i).frees = ((ready h).slabs i).frees

/-- Clearing the block leaves the mark. -/
theorem handsOut_of_take {g : Heap} (hsz : (g.slabs i).size = sizes i)
    (hallocs : (g.slabs i).allocations = ((ready h).slabs i).allocations)
    (hfrees : (g.slabs i).frees = ((ready h).slabs i).frees) :
    HandsOut h i (g.slabs i).freeList { (takeObject g i).1 with
      mem := (takeObject g i).1.mem.fill (takeObject g i).2 size 0 } := by
  refine ⟨?_, ?_, ?_⟩
  -- the block starts after the header, so clearing it leaves the mark
  · have hmark := take_marked g.mem i (g.slabs i).freeList
    simp only [takeObject, hsz, headerSize]
    constructor
    · refine (ByteMem.load_congr fun x h1 h2 => ?_).trans hmark.magic
      exact ByteMem.fill_of_not_mem (by omega)
    · refine (ByteMem.load_congr fun x h1 h2 => ?_).trans hmark.size
      exact ByteMem.fill_of_not_mem (by omega)
  · simp only [takeObject, Heap.setSlab, Function.update_self, hallocs]
  · simp only [takeObject, Heap.setSlab, Function.update_self, hfrees]

/-- **A small request of `kzalloc` that is served.** -/
theorem kzalloc_handsOut (hsz : Sized h) (hu : useOf size = .slab i) (hne : size ≠ 0)
    (hobj : nextObject h i answer ≠ 0) :
    HandsOut h i (nextObject h i answer) (kzalloc h size answer).heap := by
  have hout := kmalloc_outcome hsz size answer
  unfold kzalloc
  simp only
  generalize kmalloc h size answer = r at hout ⊢
  cases hout with
  | null request hreq hsmall =>
    obtain ⟨hlist, ha⟩ := hsmall i hu hne
    rw [nextObject, if_neg (not_not.2 hlist)] at hobj
    exact absurd ha hobj
  | large hsize hans =>
    rw [hu] at hsize
    cases hsize
  | take j hsize _ hlist =>
    obtain rfl : j = i := Use.slab.inj (hsize.symm.trans hu)
    rw [if_pos (takeObject_ne_zero _ _), nextObject, if_pos hlist]
    exact handsOut_of_take (hsz j) rfl rfl
  | carve j hsize _ hlist hans =>
    obtain rfl : j = i := Use.slab.inj (hsize.symm.trans hu)
    -- splitting a page changes the free list of the class and neither counter
    have hslab : (carve (ready h) j answer).slabs j =
        { (ready h).slabs j with freeList := answer } := Function.update_self ..
    have htake : HandsOut h j ((carve (ready h) j answer).slabs j).freeList
        { (takeObject (carve (ready h) j answer) j).1 with
          mem := (takeObject (carve (ready h) j answer) j).1.mem.fill
            (takeObject (carve (ready h) j answer) j).2 size 0 } := by
      refine handsOut_of_take ?_ ?_ ?_
      · rw [hslab]
        exact hsz j
      · rw [hslab]
      · rw [hslab]
    rw [if_pos (takeObject_ne_zero _ _), nextObject, if_neg (not_not.2 hlist)]
    rwa [hslab] at htake

/-- What freeing a block writes: at most the link of its object. -/
theorem kfree_of_not_mem {ptr : ℕ} (hx : ¬ (ptr - headerSize ≤ x ∧ x < ptr - headerSize + 8)) :
    (kfree h ptr).1.mem x = h.mem x := by
  unfold kfree
  split
  · rfl
  · simp only
    split
    · rfl
    · split
      · rfl
      · split
        · rfl
        · exact ByteMem.store_of_not_mem hx

/-- Freeing keeps the sizes of the caches. -/
theorem Sized.kfree (hsz : Sized h) (hi : h.initialized = true) (ptr : ℕ) :
    Sized (Kmalloc.kfree h ptr).1 := by
  have hsz' : ∀ j, (h.slabs j).size = sizes j := by
    intro j
    rw [← hsz j, ready_of_initialized hi]
  unfold Kmalloc.kfree
  split
  · exact hsz
  · simp only
    split
    · exact hsz
    · split
      · exact hsz
      · split
        · exact hsz
        · intro j
          refine Eq.trans (congrArg (fun g : Heap => (g.slabs j).size)
            (ready_of_initialized (by exact hi))) ?_
          exact (setSlab_size (g := h) (by rfl) j).trans (hsz' j)

end Kmalloc

end Kos
