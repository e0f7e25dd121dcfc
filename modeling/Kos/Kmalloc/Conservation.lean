import Kos.Kmalloc.Blocks
import Mathlib.Order.Interval.Finset.Nat
/-!
# Kmalloc — no object is lost and none is duplicated

As long as nobody writes to a header, every object carved for a class is
live or on the free list of that class, never both and never twice, and
the difference of the two counters is the number of live objects. The
counters are 64-bit words, so their difference is taken with wrap-around;
it is the number of live objects all the same, because these have
different addresses.
-/

namespace Kos

namespace Kmalloc

variable {w : World} {free : Fin 8 → List ℕ} {i j : Fin 8} {o size answer : ℕ} {b : Block}

/-- How many blocks of a class are live. -/
def liveIn (live : List Block) (i : Fin 8) : ℕ := live.countP fun b => b.use = .slab i

/-- How often an object is live. -/
def liveAt (live : List Block) (o : ℕ) : ℕ := live.countP fun b => b.ptr = o + headerSize

/-- **Every object is accounted for**: what is not free is live, and the
counters differ by the number of live objects. -/
structure Whole (w : World) (free : Fin 8 → List ℕ) : Prop extends Inv w free where
  slabs_only : ∀ b ∈ w.live, ∃ i, b.use = .slab i
  covered : ∀ i o, Object w.regions i o → o ∉ free i →
    ∃ b ∈ w.live, b.use = .slab i ∧ b.ptr = o + headerSize
  counted : ∀ i, (w.heap.slabs i).allocations =
    add64 (w.heap.slabs i).frees (liveIn w.live i)
  frees_lt : ∀ i, (w.heap.slabs i).frees < 2 ^ 64

theorem whole_boot (mem : ByteMem) : Whole (World.boot mem) fun _ => [] where
  toInv := inv_boot mem
  slabs_only b hb := by simp [World.boot] at hb
  covered i o ho := by
    obtain ⟨r, hr, -⟩ := ho
    simp [World.boot] at hr
  counted _ := rfl
  frees_lt _ := by simp [World.boot, boot]

/-! ## Counting live blocks -/

/-- Small live blocks are at different addresses. -/
theorem Whole.ptr_ne (h : Whole w free) : w.live.Pairwise fun b b' => b.ptr ≠ b'.ptr := by
  refine h.distinct.imp_of_mem ?_
  intro b b' hb hb' hd
  obtain ⟨i, hi⟩ := h.slabs_only b hb
  obtain ⟨j, hj⟩ := h.slabs_only b' hb'
  exact hd (by simp [hi, hj])

/-- In a list of blocks at different addresses each address is counted
once. -/
theorem countP_ptr_eq_one {live : List Block} (hne : live.Pairwise fun b b' => b.ptr ≠ b'.ptr)
    (hb : b ∈ live) : (live.countP fun b' => b'.ptr = b.ptr) = 1 := by
  induction live with
  | nil => cases hb
  | cons c live ih =>
    obtain ⟨hc, hrest⟩ := List.pairwise_cons.1 hne
    rcases List.mem_cons.1 hb with rfl | hb
    · have hzero : (live.countP fun b' => b'.ptr = b.ptr) = 0 := by
        rw [List.countP_eq_zero]
        intro b' hb'
        simpa using (hc b' hb').symm
      simp [hzero]
    · simp [ih hrest hb, hc b hb]

/-- Freeing one block takes one away from its class. -/
theorem liveIn_filter {live : List Block} (hne : live.Pairwise fun b b' => b.ptr ≠ b'.ptr)
    (hb : b ∈ live) (hu : b.use = .slab i) (j : Fin 8) :
    liveIn live j = liveIn (live.filter fun b' => b'.ptr ≠ b.ptr) j + if j = i then 1 else 0 := by
  unfold liveIn
  induction live with
  | nil => cases hb
  | cons c live ih =>
    obtain ⟨hc, hrest⟩ := List.pairwise_cons.1 hne
    rcases List.mem_cons.1 hb with rfl | hb
    · -- the other blocks are elsewhere, so the filter keeps them all
      have hkeep : (live.filter fun b' => b'.ptr ≠ b.ptr) = live := by
        rw [List.filter_eq_self]
        intro b' hb'
        simpa using (hc b' hb').symm
      rw [List.filter_cons_of_neg (by simp), hkeep, List.countP_cons, hu]
      by_cases hji : j = i
      · simp [hji]
      · simp [hji, Ne.symm hji]
    · rw [List.filter_cons_of_pos (by simpa using hc b hb), List.countP_cons, List.countP_cons,
        ih hrest hb]
      omega

/-- The live blocks of a class are fewer than a word can count. -/
theorem Whole.liveIn_lt (h : Whole w free) (i : Fin 8) : liveIn w.live i < 2 ^ 64 := by
  have hsub : (w.live.map Block.ptr).toFinset ⊆ Finset.Ico 1 (2 ^ 64) := by
    intro p hp
    rw [List.mem_toFinset, List.mem_map] at hp
    obtain ⟨b, hb, rfl⟩ := hp
    obtain ⟨j, hj⟩ := h.slabs_only b hb
    obtain ⟨o, hp, hobj, -⟩ := h.small b hb j hj
    have hlt := h.regions.object_lt hobj
    have hge := sizes_ge j
    rw [Finset.mem_Ico, hp]
    simp only [headerSize]
    omega
  have hnodup : (w.live.map Block.ptr).Nodup := List.pairwise_map.2 h.ptr_ne
  have hcard := Finset.card_le_card hsub
  rw [List.toFinset_card_of_nodup hnodup, List.length_map, Nat.card_Ico] at hcard
  have hle : liveIn w.live i ≤ w.live.length := List.countP_le_length
  omega

/-! ## What the calls keep -/

theorem Whole.ready (h : Whole w free) : Whole { w with heap := Kmalloc.ready w.heap } free := by
  cases hi : w.heap.initialized with
  | true =>
    have heq : Kmalloc.ready w.heap = w.heap := if_pos hi
    rw [heq]
    exact h
  | false =>
    have heq : Kmalloc.ready w.heap = kmallocInit w.heap := if_neg (by simp [hi])
    -- nothing was allocated before the classes were set up
    have hlive : w.live = [] := by
      refine List.eq_nil_iff_forall_not_mem.2 ?_
      intro b hb
      obtain ⟨i, hu⟩ := h.slabs_only b hb
      obtain ⟨o, -, ⟨r, hr, -⟩, -⟩ := h.small b hb i hu
      rw [h.unused hi] at hr
      cases hr
    refine ⟨h.toInv.ready.1, h.slabs_only, h.covered, ?_, ?_⟩
    · intro i
      simp [heq, kmallocInit, hlive, liveIn, add64]
    · intro i
      simp [heq, kmallocInit]

/-- Writing outside the headers. -/
theorem Whole.setMem {mem' : ByteMem} (h : Whole w free)
    (hm : ∀ i o, Object w.regions i o → SameHeader w.heap.mem mem' o) :
    Whole { w with heap := { w.heap with mem := mem' } } free :=
  ⟨h.toInv.setMem hm, h.slabs_only, h.covered, h.counted, h.frees_lt⟩

/-- Taking an object makes it live and counts it. -/
theorem Whole.taken {rest : List ℕ} (h : Whole w free) (hi : w.heap.initialized = true)
    (hfree : free i = o :: rest) (size : ℕ) :
    Whole (w.taken i o size) (Function.update free i rest) := by
  refine ⟨(h.toInv.take hi hfree size).2, ?_, ?_, ?_, ?_⟩
  · intro b hb
    rcases List.mem_cons.1 hb with rfl | hb
    · exact ⟨i, rfl⟩
    · exact h.slabs_only b hb
  -- the object served is live now, the others are where they were
  · intro j p hp hnot
    by_cases hpo : j = i ∧ p = o
    · obtain ⟨rfl, rfl⟩ := hpo
      exact ⟨_, List.mem_cons_self, rfl, rfl⟩
    · have hnot' : p ∉ free j := by
        intro hin
        by_cases hji : j = i
        · subst hji
          rw [Function.update_self] at hnot
          rw [hfree, List.mem_cons] at hin
          exact hin.elim (fun heq => hpo ⟨rfl, heq⟩) hnot
        · rw [Function.update_of_ne hji] at hnot
          exact hnot hin
      obtain ⟨b, hb, hrest⟩ := h.covered j p hp hnot'
      exact ⟨b, List.mem_cons_of_mem _ hb, hrest⟩
  · intro j
    have hc := h.counted j
    by_cases hji : j = i
    · subst hji
      simp only [World.taken, takeObject, Heap.setSlab, Function.update_self, liveIn,
        List.countP_cons, decide_true, if_true] at hc ⊢
      rw [hc]
      unfold add64
      omega
    · simpa [World.taken, takeObject, Heap.setSlab, hji, liveIn, Ne.symm hji] using hc
  · intro j
    by_cases hji : j = i
    · subst hji
      simpa [World.taken, takeObject, Heap.setSlab] using h.frees_lt j
    · simpa [World.taken, takeObject, Heap.setSlab, hji] using h.frees_lt j

/-- Splitting a page makes its slots free, and counts nothing. -/
theorem Whole.carved {page : ℕ} (h : Whole w free) (hi : w.heap.initialized = true)
    (hnil : free i = []) (hf : Fresh w.regions page 1) :
    Whole (w.carved i page)
      (Function.update free i (slots page (sizes i) (pageSize / sizes i))) := by
  -- splitting a page is no allocation
  have hcounters : ∀ j, ((w.carved i page).heap.slabs j).allocations =
      (w.heap.slabs j).allocations ∧
      ((w.carved i page).heap.slabs j).frees = (w.heap.slabs j).frees := by
    intro j
    by_cases hji : j = i
    · subst hji
      simp [World.carved, Kmalloc.carve, Heap.setSlab]
    · simp [World.carved, Kmalloc.carve, Heap.setSlab, hji]
  refine ⟨h.toInv.carve hi hnil hf, h.slabs_only, ?_, ?_, ?_⟩
  · rintro j p ⟨r, hr, hu, hslot⟩ hnot
    rcases List.mem_cons.1 hr with rfl | hr
    · obtain rfl : i = j := Use.slab.inj hu
      rw [Function.update_self, mem_slots] at hnot
      exact absurd hslot hnot
    · refine h.covered j p ⟨r, hr, hu, hslot⟩ ?_
      by_cases hji : j = i
      · subst hji
        rw [hnil]
        exact List.not_mem_nil
      · rwa [Function.update_of_ne hji] at hnot
  · intro j
    rw [(hcounters j).1, (hcounters j).2]
    exact h.counted j
  · intro j
    rw [(hcounters j).2]
    exact h.frees_lt j

/-- Freeing a live object makes it free and counts it. -/
theorem Whole.kfree (h : Whole w free) (hb : b ∈ w.live) (hu : b.use = .slab i) :
    ∃ o, Object w.regions i o ∧ b.ptr = o + headerSize ∧
      Whole ⟨(kfree w.heap b.ptr).1, w.regions, w.live.filter fun b' => b'.ptr ≠ b.ptr⟩
        (Function.update free i (o :: free i)) := by
  obtain ⟨o, hp, hinv⟩ := h.toInv.kfree hb hu
  obtain ⟨o', hp', hobj, -, hmark⟩ := h.small b hb i hu
  obtain rfl : o' = o := Nat.add_right_cancel (hp'.symm.trans hp)
  have heq : (Kmalloc.kfree w.heap b.ptr).1 = putBack w.heap i o' := by
    rw [hp]
    exact h.kfree_eq hobj hmark
  refine ⟨o', hobj, hp, hinv, ?_, ?_, ?_, ?_⟩
  · intro b' hb'
    exact h.slabs_only b' (List.mem_of_mem_filter hb')
  · intro j p hpo hnot
    have hnot' : p ∉ free j := by
      intro hin
      refine hnot ?_
      by_cases hji : j = i
      · subst hji
        rw [Function.update_self]
        exact List.mem_cons_of_mem o' hin
      · rw [Function.update_of_ne hji]
        exact hin
    obtain ⟨b', hb', hu', hptr⟩ := h.covered j p hpo hnot'
    refine ⟨b', List.mem_filter.2 ⟨hb', ?_⟩, hu', hptr⟩
    -- the block at the freed address would be the object that is free now
    rw [decide_eq_true_eq, hptr, hp]
    intro hsame
    obtain rfl : p = o' := Nat.add_right_cancel hsame
    have hge := sizes_ge i
    have hge' := sizes_ge j
    obtain ⟨rfl, -⟩ := (h.regions.object_apart hobj hpo).resolve_right (by omega)
    rw [Function.update_self] at hnot
    exact hnot List.mem_cons_self
  · intro j
    have hc := h.counted j
    rw [liveIn_filter h.ptr_ne hb hu j] at hc
    simp only [heq, putBack, Heap.setSlab]
    by_cases hji : j = i
    · subst hji
      simp only [Function.update_self, if_true] at hc ⊢
      rw [hc]
      unfold add64
      omega
    · simpa only [Function.update_of_ne hji, if_neg hji, Nat.add_zero] using hc
  · intro j
    simp only [heq, putBack, Heap.setSlab]
    by_cases hji : j = i
    · subst hji
      rw [Function.update_self]
      exact add64_lt _ _
    · rw [Function.update_of_ne hji]
      exact h.frees_lt j

/-! ## Runs -/

/-- **What a step may do**: small requests answered with fresh pages, live
pointers freed, and writes that reach no header. -/
def Op.SparesHeaders (w : World) : Op → Prop
  | .kmalloc size answer =>
    1 ≤ size.toNat ∧ size.toNat ≤ kmallocMaxSize ∧ AnswerOk w size.toNat answer
  | .kzalloc _ _ => False
  | .kfree ptr => ∃ b ∈ w.live, b.ptr = ptr
  | .write addr _ => ∀ i o, Object w.regions i o → addr < o ∨ o + headerSize ≤ addr

/-- **One step accounts for every object.** -/
theorem Whole.step {op : Op} (h : Whole w free) (hop : op.SparesHeaders w) :
    ∃ free', Whole (w.step op) free' := by
  cases op with
  | kmalloc size answer =>
    obtain ⟨-, hle, hans⟩ := hop
    obtain ⟨free', hs⟩ := h.toInv.served hans size.toNat_lt
    have hr := h.ready
    have hi := h.toInv.ready.2
    refine ⟨free', ?_⟩
    simp only [World.step]
    generalize w.record size.toNat answer (kmalloc w.heap size.toNat answer) = w' at hs ⊢
    cases hs with
    | refused => exact hr
    | large mem' pages hsize hf hfit hm =>
      exact absurd hle (Nat.not_le.2 (useOf_large_iff.1 hsize))
    | take i o rest hsize hfree => exact hr.taken hi hfree _
    | carve i rest hsize hnil hf hslots =>
      exact (hr.carved hi hnil hf).taken hi (by rw [Function.update_self, hslots]) _
  | kzalloc size answer => exact hop.elim
  | kfree ptr =>
    obtain ⟨b, hb, rfl⟩ := hop
    obtain ⟨i, hu⟩ := h.slabs_only b hb
    obtain ⟨o, -, -, h'⟩ := h.kfree hb hu
    exact ⟨_, h'⟩
  | write addr byte =>
    refine ⟨free, h.setMem ?_⟩
    intro i o ho x hx1 hx2
    have hoff := hop i o ho
    exact Function.update_of_ne (by omega) ..

/-- **What conservation says of a state**: the free lists are finite and
acyclic, each holds objects of its own class, every object is live or
free and not both, exactly once, and the counters differ by the number
of live objects. -/
structure Conserved (w : World) (free : Fin 8 → List ℕ) : Prop where
  chain : ∀ i, Chain w.heap.mem (w.heap.slabs i).freeList (free i)
  nodup : ∀ i, (free i).Nodup
  free_object : ∀ i, ∀ o ∈ free i, Object w.regions i o
  once : ∀ i o, Object w.regions i o →
    (o ∈ free i ∧ liveAt w.live o = 0) ∨ (o ∉ free i ∧ liveAt w.live o = 1)
  counters : ∀ i, sub64 (w.heap.slabs i).allocations (w.heap.slabs i).frees = liveIn w.live i

theorem Whole.conserved (h : Whole w free) : Conserved w free := by
  refine ⟨h.chain, h.free_nodup, h.free_object, ?_, ?_⟩
  · intro i o ho
    -- an object is on the list of its class or is a live block, not both
    by_cases hin : o ∈ free i
    · refine Or.inl ⟨hin, ?_⟩
      rw [liveAt, List.countP_eq_zero]
      intro b hb
      obtain ⟨j, hu⟩ := h.slabs_only b hb
      simpa using h.ptr_ne_free hin hb hu
    · obtain ⟨b, hb, -, hptr⟩ := h.covered i o ho hin
      refine Or.inr ⟨hin, ?_⟩
      rw [liveAt, ← hptr]
      exact countP_ptr_eq_one h.ptr_ne hb
  · intro i
    rw [h.counted i]
    have hlt := h.liveIn_lt i
    have hfrees := h.frees_lt i
    unfold sub64 add64
    omega

/-- **No object is lost and none is duplicated.** After every run of small
requests, frees of live pointers and writes that reach no header, every
object is accounted for, and freeing a live pointer puts its object at
the head of the list of the class it was carved for and touches no other
list. -/
theorem objects_conserved {mem : ByteMem} {ops : List Op}
    (hrun : Allowed World.step (fun w op => op.SparesHeaders w) (World.boot mem) ops) :
    ∃ free, Conserved (runFrom World.step (World.boot mem) ops) free ∧
      ∀ b ∈ (runFrom World.step (World.boot mem) ops).live, ∃ i o,
        Object (runFrom World.step (World.boot mem) ops).regions i o ∧
        b.ptr = o + headerSize ∧
        ∀ j, Chain (kfree (runFrom World.step (World.boot mem) ops).heap b.ptr).1.mem
          ((kfree (runFrom World.step (World.boot mem) ops).heap b.ptr).1.slabs j).freeList
          (Function.update free i (o :: free i) j) := by
  have hwhole : ∃ free, Whole (runFrom World.step (World.boot mem) ops) free := by
    refine Allowed.invariant (P := fun w => ∃ free, Whole w free) ?_ hrun ⟨_, whole_boot mem⟩
    rintro w op ⟨free, hw⟩ hop
    exact hw.step hop
  obtain ⟨free, h⟩ := hwhole
  refine ⟨free, h.conserved, ?_⟩
  intro b hb
  obtain ⟨i, hu⟩ := h.slabs_only b hb
  obtain ⟨o, hobj, hptr, h'⟩ := h.kfree hb hu
  exact ⟨i, o, hobj, hptr, h'.chain⟩

/-- One object of 16 bytes taken from a new page, written to and given
back. -/
theorem objects_conserved_sixteen :
    Allowed World.step (fun w op => op.SparesHeaders w) (World.boot fun _ => 0)
        [.kmalloc 16 0x100000, .write 0x200000 7, .kfree 0x100010] ∧
      ∃ free, Conserved (runFrom World.step (World.boot fun _ => 0)
        [.kmalloc 16 0x100000, .write 0x200000 7, .kfree 0x100010]) free := by
  have hreq : (kmalloc (boot fun _ => 0) 16 0x100000).request = some 1 := by decide +kernel
  have hregions : ((World.boot fun _ => 0).step (.kmalloc 16 0x100000)).regions =
      [⟨0x100000, 1, .slab 0⟩] := by decide +kernel
  have hlive : ((World.boot fun _ => 0).step (.kmalloc 16 0x100000)).live =
      [⟨0x100010, 16, .slab 0⟩] := by decide +kernel
  have hrun : Allowed World.step (fun w op => op.SparesHeaders w) (World.boot fun _ => 0)
      [.kmalloc 16 0x100000, .write 0x200000 7, .kfree 0x100010] := by
    refine ⟨⟨by decide, by decide, ?_⟩, ?_, ⟨⟨0x100010, 16, .slab 0⟩, ?_, rfl⟩, trivial⟩
    · intro pages hp _
      obtain rfl : 1 = pages := Option.some.inj (hreq.symm.trans hp)
      exact fresh_page
    · rintro i o ⟨r, hr, hu, k, hk, rfl⟩
      rw [hregions, List.mem_singleton] at hr
      subst hr
      obtain rfl : 0 = i := Use.slab.inj hu
      have hk' : k < 256 := hk
      have hsize : sizes 0 = 16 := rfl
      right
      simp only [hsize, headerSize]
      omega
    · change _ ∈ ((World.boot fun _ => 0).step (.kmalloc 16 0x100000)).live
      rw [hlive]
      exact List.mem_cons_self
  obtain ⟨free, h, -⟩ := objects_conserved hrun
  exact ⟨hrun, free, h⟩

end Kmalloc

end Kos
