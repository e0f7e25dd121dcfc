import Kos.Sched.Runqueue
/-!
# Sched — what `process_create` leaves when something is missing

Four things are asked for, and two answers are looked at. A process
without a block is not made, and a process without a thread is freed.
But a process without an address space is made all the same, with `0`
for its tables, and so is a thread without a stack; and where the
process is freed, its address space stays.

What a call takes and gives back is kept beside it in a ledger. The
pages that are split into objects belong to the heap, which keeps them,
so a block counts as given back where it is free again.
-/

namespace Kos

namespace Sched

open Kmalloc

variable {k : Kernel} {a : CreateArgs} {mem : ByteMem} {w : World} {q : List ℕ} {p t x : ℕ}

/-- `t->kernel_stack`. -/
def kernelStackOf (mem : ByteMem) (t : ℕ) : ℕ := mem.load (t + 32) 8

/-! ## The ledger -/

/-- What a call leaves: its result, the kernel, the pages it took for
itself and gave back, as addresses and numbers, and the blocks it got
from the heap. -/
structure Ledger where
  result : ℕ
  kernel : Kernel
  taken : List (ℕ × ℕ)
  released : List (ℕ × ℕ)
  blocks : List ℕ

/-- An answer of the page allocator, if it is not `NULL`. -/
def granted (page count : ℕ) : List (ℕ × ℕ) := if page = 0 then [] else [(page, count)]

/-- `process_create` with its ledger. The one call that may give pages back
is that of `kfree`. -/
def createLedger (k : Kernel) (a : CreateArgs) : Ledger :=
  if (processBlock k a).ptr = 0 then ⟨0, { k with heap := (processBlock k a).heap }, [], [], []⟩
  else if (threadBlock k a).ptr = 0 then
    -- the process is freed; its address space is not
    let freed := kfree (threadBlock k a).heap (processBlock k a).ptr
    ⟨0, withProcess k a freed.1, granted a.spacePage 1, freed.2.toList, [(processBlock k a).ptr]⟩
  else
    ⟨(processBlock k a).ptr, enqueue (withThread k a) (threadBlock k a).ptr,
      granted a.spacePage 1 ++ granted a.stack 4, [],
      [(processBlock k a).ptr, (threadBlock k a).ptr]⟩

/-- The ledger is kept beside the call. -/
theorem createLedger_eq (k : Kernel) (a : CreateArgs) :
    ((createLedger k a).result, (createLedger k a).kernel) = processCreate k a := by
  rw [processCreate_eq, createLedger]
  split_ifs
  · rfl
  · rfl
  · rfl

/-- How many objects of a class are handed out, by its counters. -/
def handedOut (h : Heap) (i : Fin 8) : ℕ :=
  sub64 ((ready h).slabs i).allocations ((ready h).slabs i).frees

/-- **A process was made**: it has an address space, and it has a thread
with a stack that was obtained and that is on the queue once. -/
structure Made (r : Ledger) : Prop where
  process : r.result ≠ 0
  cr3 : cr3Of r.kernel.mem r.result ≠ 0
  thread : ∃ t stack q, parentOf r.kernel.mem t = r.result ∧ (stack, 4) ∈ r.taken ∧
    kernelStackOf r.kernel.mem t = add64 stack 0x10000 ∧
    Links (nextOf r.kernel.mem) r.kernel.rq.head q 0 ∧ q.count t = 1

/-- **Nothing is left of the call**: `NULL` is returned, the queue is what
it was, the pages are given back, and every block is the next one its
class serves, with as many handed out as before. -/
structure CleanedUp (k : Kernel) (q : List ℕ) (r : Ledger) : Prop where
  null : r.result = 0
  rq : r.kernel.rq = k.rq
  links : Links (nextOf r.kernel.mem) r.kernel.rq.head q 0
  pages : ∀ g ∈ r.taken, g ∈ r.released
  blocks : ∀ ptr ∈ r.blocks, ∃ i, ((ready r.kernel.heap).slabs i).freeList + headerSize = ptr
  counts : ∀ i, handedOut r.kernel.heap i = handedOut k.heap i

/-- **All or nothing.** Either there is no block for the process; or there
is none for the thread and no address space either; or all four are
there, and the tables of the space are not at physical address `0`. -/
def AllOrNothing (k : Kernel) (a : CreateArgs) : Prop :=
  processObject k a = 0 ∨ (threadObject k a = 0 ∧ a.spacePage = 0) ∨
    (threadObject k a ≠ 0 ∧ a.spacePage ≠ 0 ∧ virtToPhys a.spacePage ≠ 0 ∧ a.stack ≠ 0)

instance : Decidable (AllOrNothing k a) := inferInstanceAs (Decidable (_ ∨ _ ∨ _))

/-- The tables of the process. -/
theorem newSpace_eq (k : Kernel) (a : CreateArgs) :
    (newSpace k a).1 = if a.spacePage = 0 then 0 else virtToPhys a.spacePage := by
  have hpage : (Vmm.pmmAllocPage ⟨k.tables, [a.spacePage]⟩).1 = a.spacePage := rfl
  unfold newSpace Vmm.vmmCreateAddressSpace
  simp only [hpage]
  split_ifs with h
  · rfl
  · simp only

theorem granted_ne_zero {page count : ℕ} (h : page ≠ 0) : granted page count = [(page, count)] :=
  if_neg h

/-! ## The ways out -/

/-- A range of bytes beside another. -/
def Beside (a n b m : ℕ) : Prop := a + n ≤ b ∨ b + m ≤ a

instance {a n b m : ℕ} : Decidable (Beside a n b m) := inferInstanceAs (Decidable (_ ∨ _))

/-- **The page of the address space is beside the process**, so that its
mark is not cleared. -/
def SpaceApart (k : Kernel) (a : CreateArgs) : Prop :=
  processObject k a ≠ 0 → a.spacePage ≠ 0 →
    Beside (processObject k a) (headerSize + processSize) a.spacePage pageSize

instance : Decidable (SpaceApart k a) := inferInstanceAs (Decidable (_ → _ → _))

/-- The counters of a heap that was set up. -/
theorem handedOut_congr {h h' : Heap} {i : Fin 8} (hs : (ready h').slabs i = (ready h).slabs i) :
    handedOut h' i = handedOut h i := by
  unfold handedOut
  rw [hs]

theorem ready_ready (h : Heap) : ready (ready h) = ready h :=
  ready_of_initialized (ready_initialized h)

/-- An object handed out and put back changes no count. -/
theorem sub64_add64_add64 (x y : ℕ) : sub64 (add64 x 1) (add64 y 1) = sub64 x y := by
  unfold sub64 add64
  omega

section Sized

variable (hsz : Sized k.heap)
include hsz

/-- Without a block for the process nothing is done. -/
theorem createLedger_no_process (hp : processObject k a = 0) :
    createLedger k a = ⟨0, { k with heap := ready k.heap }, [], [], []⟩ := by
  have hheap : (processBlock k a).heap = ready k.heap :=
    kzalloc_null hsz (by decide) (by decide) hp
  rw [createLedger, processBlock_ptr hsz, if_pos hp, if_pos rfl, hheap]

/-- The mark of the process is before what is filled in. -/
theorem filledHeap_handsOut (hspace : SpaceApart k a) (hp : processObject k a ≠ 0) :
    HandsOut k.heap processClass (processObject k a) (filledHeap k a) := by
  have hout : HandsOut k.heap processClass (processObject k a) (processBlock k a).heap :=
    kzalloc_handsOut hsz (by decide) (by decide) hp
  -- the header is below the block, and the fields are in the block
  have hsame : ∀ x, processObject k a ≤ x → x < processObject k a + headerSize →
      (filledHeap k a).mem x = (processBlock k a).heap.mem x := by
    intro x hlo hx
    have hptr : (processBlock k a).ptr = processObject k a + headerSize := by
      rw [processBlock_ptr hsz, if_neg hp]
    simp only [filledHeap, hptr]
    refine fillProcess_of_not_mem (by omega) fun h0 => ?_
    have := hspace hp h0
    simp only [Beside, processSize] at this
    omega
  refine ⟨⟨?_, ?_⟩, hout.allocations, hout.frees⟩
  · refine (ByteMem.load_congr fun x h1 h2 => hsame x ?_ ?_).trans hout.marked.magic
    · omega
    · simp only [headerSize]
      omega
  · refine (ByteMem.load_congr fun x h1 h2 => hsame x ?_ ?_).trans hout.marked.size
    · omega
    · simp only [headerSize]
      omega

theorem filledHeap_initialized : (filledHeap k a).initialized = true :=
  (processBlock_serves hsz).initialized

/-- **Without a block for the thread the process is put back**, and no page
is given back. -/
theorem createLedger_no_thread (hspace : SpaceApart k a) (hp : processObject k a ≠ 0)
    (ht : threadObject k a = 0) :
    createLedger k a =
      ⟨0, withProcess k a (Kmalloc.putBack (filledHeap k a) processClass (processObject k a)),
        granted a.spacePage 1, [], [processObject k a + headerSize]⟩ := by
  have hinit := filledHeap_initialized (a := a) hsz
  -- the request that failed changed nothing, so `kfree` finds the mark
  have hheap : (threadBlock k a).heap = filledHeap k a := by
    have hnone : nextObject (filledHeap k a) threadClass a.threadPage = 0 := by
      rw [(nextObject_filledHeap hsz).1]
      exact ht
    exact (kzalloc_null (filledHeap_sized hsz) (by decide) (by decide) hnone).trans
      (ready_of_initialized hinit)
  have hsizes : ∀ j, ((filledHeap k a).slabs j).size = sizes j := by
    intro j
    have := filledHeap_sized (a := a) hsz j
    rwa [ready_of_initialized hinit] at this
  have hne : processObject k a + headerSize ≠ 0 := Nat.succ_ne_zero _
  rw [createLedger, processBlock_ptr hsz, if_neg hp, if_neg hne, threadBlock_ptr hsz, if_pos ht,
    if_pos rfl, hheap, kfree_of_marked hsizes (filledHeap_handsOut hsz hspace hp).marked]
  rfl

theorem ready_putBack (i : Fin 8) (o : ℕ) :
    ready (Kmalloc.putBack (filledHeap k a) i o) = Kmalloc.putBack (filledHeap k a) i o :=
  ready_of_initialized (filledHeap_initialized hsz)

/-- The counters are those from before. -/
theorem handedOut_putBack (hspace : SpaceApart k a) (hp : processObject k a ≠ 0) (i : Fin 8) :
    handedOut (Kmalloc.putBack (filledHeap k a) processClass (processObject k a)) i =
      handedOut k.heap i := by
  have hinit := filledHeap_initialized (a := a) hsz
  have hout := filledHeap_handsOut hsz hspace hp
  -- the class of the process counts one more of each, the others count the same
  by_cases hi : i = processClass
  · subst hi
    unfold handedOut
    rw [ready_putBack hsz]
    simp only [Kmalloc.putBack, Heap.setSlab, Function.update_self, hout.allocations, hout.frees]
    exact sub64_add64_add64 _ _
  · refine handedOut_congr ?_
    rw [ready_putBack hsz, ← filledHeap_slabs (a := a) hsz hi, ready_of_initialized hinit]
    exact Function.update_of_ne hi ..

end Sized

/-- A call that fails leaves the queue alone. -/
theorem World.Inv.failed (h : w.Inv q) (hc : Op.Clear w (.create a))
    (hnull : (createLedger w.kernel a).result = 0) :
    (createLedger w.kernel a).kernel.rq = w.kernel.rq ∧
      Links (nextOf (createLedger w.kernel a).kernel.mem) (createLedger w.kernel a).kernel.rq.head q 0 := by
  obtain ⟨-, hstack, -, hoff⟩ := hc
  have hcreated := processCreate_created h.sized hstack hoff
  rw [← createLedger_eq] at hcreated
  generalize createLedger w.kernel a = r at hcreated hnull ⊢
  obtain ⟨result, k', taken, released, blocks⟩ := r
  cases hcreated with
  | failed _ hrq _ _ hsame =>
    refine ⟨hrq, ?_⟩
    rw [hrq]
    exact h.queue.links.congr fun t ht => (hsame t (h.queued t ht)).next
  | queued _ _ hp => exact absurd hnull hp

/-- **A call that finds no block for the process leaves nothing.** -/
theorem World.Inv.cleanedUp_no_process (h : w.Inv q) (hc : Op.Clear w (.create a))
    (hp : processObject w.kernel a = 0) : CleanedUp w.kernel q (createLedger w.kernel a) := by
  have hledger := createLedger_no_process h.sized hp
  have hnull : (createLedger w.kernel a).result = 0 := by rw [hledger]
  obtain ⟨hrq, hlinks⟩ := h.failed hc hnull
  refine ⟨hnull, hrq, hlinks, ?_, ?_, ?_⟩
  · rw [hledger]
    exact fun g hg => absurd hg List.not_mem_nil
  · rw [hledger]
    exact fun ptr hptr => absurd hptr List.not_mem_nil
  · rw [hledger]
    intro i
    exact handedOut_congr (congrFun (congrArg Heap.slabs (ready_ready _)) i)

/-- **A call that finds no block for the thread leaves nothing where it has
no address space**, and its tables where it has one. -/
theorem World.Inv.cleanedUp_no_thread_iff (h : w.Inv q) (hc : Op.Clear w (.create a))
    (hspace : SpaceApart w.kernel a) (hp : processObject w.kernel a ≠ 0)
    (ht : threadObject w.kernel a = 0) :
    CleanedUp w.kernel q (createLedger w.kernel a) ↔ a.spacePage = 0 := by
  have hledger := createLedger_no_thread h.sized hspace hp ht
  have hnull : (createLedger w.kernel a).result = 0 := by rw [hledger]
  obtain ⟨hrq, hlinks⟩ := h.failed hc hnull
  constructor
  · intro hclean
    by_contra hpage
    -- the page of the address space was taken and is not among those given back
    have hback := hclean.pages (a.spacePage, 1)
    rw [hledger, granted_ne_zero hpage] at hback
    cases hback List.mem_cons_self
  · intro hpage
    refine ⟨hnull, hrq, hlinks, ?_, ?_, ?_⟩
    · rw [hledger, hpage]
      exact fun g hg => absurd hg List.not_mem_nil
    · rw [hledger]
      intro ptr hptr
      refine ⟨processClass, ?_⟩
      rw [List.mem_singleton.1 hptr, withProcess_heap, ready_putBack h.sized]
      simp only [Kmalloc.putBack, Heap.setSlab, Function.update_self]
    · rw [hledger]
      exact handedOut_putBack h.sized hspace hp

/-! ## A process that is made -/

/-- **What a call obtains for a thread is apart**: the block of the process
from the page that is split for the thread and from the thread's block,
and both blocks from the stack and the frame. -/
structure OwnApart (k : Kernel) (a : CreateArgs) : Prop where
  bound : processObject k a + (headerSize + processSize) ≤ 2 ^ 64
  page : Splits k.heap threadClass a.threadPage →
    Beside (processObject k a) (headerSize + processSize) a.threadPage pageSize
  block : Beside (processObject k a) (headerSize + processSize) (threadObject k a + 8) (8 + threadSize)
  processStack : a.stack ≠ 0 →
    Beside (processObject k a) (headerSize + processSize) a.stack (4 * pageSize)
  processFrame : Beside (processObject k a) (headerSize + processSize) (a.stack + 0x10000 - 72) 64
  threadStack : a.stack ≠ 0 → Beside (threadObject k a + 8) (8 + threadSize) a.stack (4 * pageSize)
  threadFrame : Beside (threadObject k a + 8) (8 + threadSize) (a.stack + 0x10000 - 72) 64

instance : Decidable (OwnApart k a) :=
  decidable_of_iff (_ ∧ _ ∧ _ ∧ _ ∧ _ ∧ _ ∧ _)
    ⟨fun ⟨h1, h2, h3, h4, h5, h6, h7⟩ => ⟨h1, h2, h3, h4, h5, h6, h7⟩,
      fun h => ⟨h.bound, h.page, h.block, h.processStack, h.processFrame, h.threadStack, h.threadFrame⟩⟩

/-- **The fields of a thread that is built**, and what is beside it. -/
theorem buildThread_fields {tid stack : ℕ} {entry : UInt64} (mem : ByteMem)
    (hlt : stack + 0x10000 < 2 ^ 64) (hp : p + 48 ≤ 2 ^ 64)
    (hpt : Beside p processSize t threadSize)
    (hstack : stack ≠ 0 → Beside p processSize stack (4 * pageSize) ∧
      Beside t threadSize stack (4 * pageSize))
    (hframe : Beside p processSize (stack + 0x10000 - 72) 64 ∧
      Beside t threadSize (stack + 0x10000 - 72) 64) :
    kernelStackOf (buildThread mem t p tid stack entry) t = add64 stack 0x10000 ∧
      parentOf (buildThread mem t p tid stack entry) t = p ∧
      cr3Of (buildThread mem t p tid stack entry) p = cr3Of mem p := by
  simp only [Beside, processSize, threadSize, pageSize] at hpt hstack hframe
  have hks : add64 stack 0x10000 = stack + 0x10000 := add64_of_lt hlt
  -- what is beside the stack's pages, the frame and the copy is read through them
  have hclear : ∀ (mem : ByteMem) (b n : ℕ), (stack ≠ 0 → b + n ≤ stack ∨ stack + 0x4000 ≤ b) →
      (if stack = 0 then mem else mem.fill stack (4 * pageSize) 0).load b n = mem.load b n := by
    intro mem b n hb
    split_ifs with h0
    · rfl
    · have := hb h0
      exact ByteMem.load_congr fun x _ _ => ByteMem.fill_of_not_mem (by simp only [pageSize]; omega)
  have hpush : ∀ (mem : ByteMem) (b n : ℕ),
      (b + n ≤ stack + 0x10000 - 72 ∨ stack + 0x10000 - 8 ≤ b) →
      (initialFrame mem (stack + 0x10000) entry.toNat).2.load b n = mem.load b n := by
    intro mem b n hb
    have hspec := (initialFrame_spec mem entry 0 (by omega) hlt).2.2
    exact ByteMem.load_congr fun x _ _ => hspec x (by omega)
  have hcopy : ∀ (mem : ByteMem) (b n : ℕ), (b + n ≤ p + 48 ∨ p + 112 ≤ b) →
      (mem.copy (p + 48) t threadSize).load b n = mem.load b n := by
    intro mem b n hb
    exact ByteMem.load_congr fun x _ _ => ByteMem.copy_of_not_mem (by simp only [threadSize]; omega)
  simp only [kernelStackOf, parentOf, cr3Of, buildThread, hks, rspAt]
  refine ⟨?_, ?_, ?_⟩
  · rw [hcopy _ _ _ (by omega), ByteMem.load_store_of_disjoint (by omega), hpush _ _ _ (by omega),
      ByteMem.load_store_of_disjoint (by omega), ByteMem.load_store_of_lt hlt]
  · rw [hcopy _ _ _ (by omega), ByteMem.load_store_of_disjoint (by omega), hpush _ _ _ (by omega),
      ByteMem.load_store_of_disjoint (by omega), ByteMem.load_store_of_disjoint (by omega),
      hclear _ _ _ (by omega), ByteMem.load_store_of_lt (by omega)]
  · rw [hcopy _ _ _ (by omega), ByteMem.load_store_of_disjoint (by omega), hpush _ _ _ (by omega),
      ByteMem.load_store_of_disjoint (by omega), ByteMem.load_store_of_disjoint (by omega),
      hclear _ _ _ (by omega), ByteMem.load_store_of_disjoint (by omega),
      ByteMem.load_store_of_disjoint (by omega), ByteMem.load_store_of_disjoint (by omega),
      ByteMem.load_store_of_disjoint (by omega)]

section Built

variable (hsz : Sized k.heap) (hlt : a.stack + 0x10000 < 2 ^ 64) (hown : OwnApart k a)
  (hp : processObject k a ≠ 0) (ht : threadObject k a ≠ 0)
include hsz hown hp

/-- The tables of the process are still there when the thread has its
block. -/
theorem cr3Of_threadBlock :
    cr3Of (threadBlock k a).heap.mem (processObject k a + headerSize) = (newSpace k a).1 := by
  have hptr : (processBlock k a).ptr = processObject k a + headerSize := by
    rw [processBlock_ptr hsz, if_neg hp]
  have hspace : (newSpace k a).1 < 2 ^ 64 := by
    rw [newSpace_eq]
    split_ifs
    · decide
    · exact sub64_lt _ _
  have hfilled : cr3Of (filledHeap k a).mem (processObject k a + headerSize) = (newSpace k a).1 := by
    simp only [cr3Of, filledHeap, fillProcess, hptr]
    exact ByteMem.load_store_of_lt hspace
  obtain ⟨hobj, hsplit⟩ := nextObject_filledHeap (a := a) hsz
  refine Eq.trans (ByteMem.load_congr fun x h1 h2 => ?_) hfilled
  -- asking for the thread's block writes to a page that is split and to the block
  refine (threadBlock_serves hsz).frame x (fun hc => ?_) fun _ => ?_
  · have := hown.page (hsplit.1 hc)
    simp only [Beside, headerSize, processSize] at this h1 h2
    omega
  · have := hown.block
    rw [hobj]
    simp only [Beside, headerSize, processSize, threadSize] at this h1 h2 ⊢
    omega

include hlt ht

theorem builtHeap_fields :
    kernelStackOf (builtHeap k a).mem (threadObject k a + headerSize) = add64 a.stack 0x10000 ∧
      parentOf (builtHeap k a).mem (threadObject k a + headerSize) = processObject k a + headerSize ∧
      cr3Of (builtHeap k a).mem (processObject k a + headerSize) = (newSpace k a).1 := by
  have hpptr : (processBlock k a).ptr = processObject k a + headerSize := by
    rw [processBlock_ptr hsz, if_neg hp]
  have htptr : (threadBlock k a).ptr = threadObject k a + headerSize := by
    rw [threadBlock_ptr hsz, if_neg ht]
  have hbound := hown.bound
  have hblock := hown.block
  have hframe := hown.processFrame
  have hframe' := hown.threadFrame
  rw [← cr3Of_threadBlock hsz hown hp]
  simp only [builtHeap, hpptr, htptr]
  simp only [Beside, headerSize, processSize, threadSize] at hbound hblock hframe hframe'
  refine buildThread_fields _ hlt ?_ ?_ (fun h0 => ⟨?_, ?_⟩) ⟨?_, ?_⟩
  · simp only [headerSize]
    omega
  · simp only [Beside, headerSize, processSize, threadSize]
    omega
  · have := hown.processStack h0
    simp only [Beside, headerSize, processSize] at this ⊢
    omega
  · have := hown.threadStack h0
    simp only [Beside, headerSize, threadSize] at this ⊢
    omega
  · simp only [Beside, headerSize, processSize]
    omega
  · simp only [Beside, headerSize, threadSize]
    omega

end Built

/-- Putting a thread on the queue writes to its state, to its `next` field
and to that of the last thread. -/
theorem enqueue_load (k : Kernel) {t b n : ℕ} (hstate : Beside b n (t + 4) 4)
    (hnext : Beside b n (nextAt t) 8) (htail : k.rq.head ≠ 0 → Beside b n (nextAt k.rq.tail) 8) :
    (enqueue k t).mem.load b n = k.mem.load b n := by
  unfold enqueue
  split_ifs with h0
  · rw [Kernel.setMem_mem, ByteMem.load_store_of_disjoint hnext, ByteMem.load_store_of_disjoint hstate]
  · rw [Kernel.setMem_mem, ByteMem.load_store_of_disjoint hnext,
      ByteMem.load_store_of_disjoint (htail h0), ByteMem.load_store_of_disjoint hstate]

/-- The last thread of a queue that is not empty exists. -/
theorem World.Inv.tail_mem (h : w.Inv q) (h0 : w.kernel.rq.head ≠ 0) : w.kernel.rq.tail ∈ w.all := by
  rcases List.eq_nil_or_concat' q with rfl | ⟨front, last, rfl⟩
  · exact absurd (h.queue.head_eq_zero_iff.2 rfl) h0
  · rw [h.queue.tail, List.getLastD_concat]
    exact h.queued last (List.mem_append_right front (List.mem_singleton_self last))

/-- **The memory a call is given is free**: it is off the threads that
exist, the page of the address space is off the process, and where a
thread is made its parts are off each other. -/
def GivenFree (w : World) (a : CreateArgs) : Prop :=
  Op.Clear w (.create a) ∧ SpaceApart w.kernel a ∧ (MakesThread w.kernel a → OwnApart w.kernel a)

instance : Decidable (GivenFree w a) := inferInstanceAs (Decidable (_ ∧ _ ∧ _))

section Made

variable (h : w.Inv q) (hc : Op.Clear w (.create a)) (hown : OwnApart w.kernel a)
  (hp : processObject w.kernel a ≠ 0) (ht : threadObject w.kernel a ≠ 0)
include h hp ht

/-- The ledger of a call that makes a thread. -/
theorem World.Inv.createLedger_made :
    createLedger w.kernel a =
      ⟨processObject w.kernel a + headerSize,
        enqueue (withThread w.kernel a) (threadObject w.kernel a + headerSize),
        granted a.spacePage 1 ++ granted a.stack 4, [],
        [processObject w.kernel a + headerSize, threadObject w.kernel a + headerSize]⟩ := by
  have hpne : processObject w.kernel a + headerSize ≠ 0 := Nat.succ_ne_zero _
  have htne : threadObject w.kernel a + headerSize ≠ 0 := Nat.succ_ne_zero _
  rw [createLedger, processBlock_ptr h.sized, if_neg hp, if_neg hpne, threadBlock_ptr h.sized,
    if_neg ht, if_neg htne]

include hc

/-- **The thread is on the queue once.** -/
theorem World.Inv.queued_once :
    ∃ q', Links (nextOf (createLedger w.kernel a).kernel.mem) (createLedger w.kernel a).kernel.rq.head
        q' 0 ∧ q'.count (threadObject w.kernel a + headerSize) = 1 := by
  have hledger := h.createLedger_made hp ht
  have hcreate : processCreate w.kernel a = (processObject w.kernel a + headerSize,
      enqueue (withThread w.kernel a) (threadObject w.kernel a + headerSize)) := by
    rw [← createLedger_eq, hledger]
  obtain ⟨q', hinv⟩ := h.create hc
  have hok := hinv.ok
  have hne : processObject w.kernel a + headerSize ≠ 0 := Nat.succ_ne_zero _
  change RunqueueOk (w.record (processCreate w.kernel a)) q' at hok
  rw [hcreate, World.record, if_neg hne, enqueue_tail] at hok
  rw [hledger]
  refine ⟨q', hok.links, ?_⟩
  rcases hok.placed _ List.mem_cons_self with ⟨hcur, -⟩ | ⟨-, hcount⟩
  · -- the current thread exists, and the new one is off it
    rw [(enqueue_frame _ _).1] at hcur
    have hcur' : threadObject w.kernel a + headerSize = w.kernel.current := hcur
    have hmem : threadObject w.kernel a + headerSize ∈ w.all := by
      rw [hcur']
      exact h.current (hcur' ▸ Nat.succ_ne_zero _)
    have hoff : Off (threadObject w.kernel a + 8) (8 + threadSize) (threadObject w.kernel a + headerSize) :=
      (hc.2.2.2 _ hmem).threadBlock hp ht
    simp only [Off, headerSize, threadSize, usedSize] at hoff
    omega
  · exact hcount

include hown

/-- **The fields of what was made**, when the thread is on the queue. -/
theorem World.Inv.made_fields :
    kernelStackOf (createLedger w.kernel a).kernel.mem (threadObject w.kernel a + headerSize) =
        add64 a.stack 0x10000 ∧
      parentOf (createLedger w.kernel a).kernel.mem (threadObject w.kernel a + headerSize) =
        processObject w.kernel a + headerSize ∧
      cr3Of (createLedger w.kernel a).kernel.mem (processObject w.kernel a + headerSize) =
        (newSpace w.kernel a).1 := by
  obtain ⟨-, hstack, -, hoff⟩ := hc
  obtain ⟨hks, hparent, hcr3⟩ := builtHeap_fields h.sized hstack hown hp ht
  have hblock := hown.block
  simp only [Beside, headerSize, processSize, threadSize] at hblock
  -- the last thread on the queue is off both blocks
  have htail : w.kernel.rq.head ≠ 0 →
      Off (processObject w.kernel a) (headerSize + processSize) w.kernel.rq.tail ∧
        Off (threadObject w.kernel a + 8) (8 + threadSize) w.kernel.rq.tail := fun h0 =>
    ⟨(hoff _ (h.tail_mem h0)).processBlock hp, (hoff _ (h.tail_mem h0)).threadBlock hp ht⟩
  simp only [Off, headerSize, processSize, threadSize, usedSize] at htail
  have hload : ∀ b, Beside b 8 (threadObject w.kernel a + headerSize + 4) 4 →
      Beside b 8 (nextAt (threadObject w.kernel a + headerSize)) 8 →
      (w.kernel.rq.head ≠ 0 → Beside b 8 (nextAt w.kernel.rq.tail) 8) →
      (enqueue (withThread w.kernel a) (threadObject w.kernel a + headerSize)).mem.load b 8 =
        (builtHeap w.kernel a).mem.load b 8 := by
    intro b hstate hnext htail
    have hq := enqueue_load (withThread w.kernel a) hstate hnext
    rw [withThread_rq, withThread_mem] at hq
    exact hq htail
  have hheader : headerSize = 16 := rfl
  simp only [Beside, nextAt] at hload
  rw [h.createLedger_made hp ht]
  exact ⟨(hload _ (by omega) (by omega) (by omega)).trans hks,
    (hload _ (by omega) (by omega) (by omega)).trans hparent,
    (hload _ (by omega) (by omega) (by omega)).trans hcr3⟩

/-- **A process is made as it must be where it gets an address space and a
stack.** -/
theorem World.Inv.made_iff :
    Made (createLedger w.kernel a) ↔
      a.spacePage ≠ 0 ∧ virtToPhys a.spacePage ≠ 0 ∧ a.stack ≠ 0 := by
  have hledger := h.createLedger_made hp ht
  obtain ⟨hks, hparent, hcr3⟩ := h.made_fields hc hown hp ht
  have hresult : (createLedger w.kernel a).result = processObject w.kernel a + headerSize := by
    rw [hledger]
  have htaken : (createLedger w.kernel a).taken = granted a.spacePage 1 ++ granted a.stack 4 := by
    rw [hledger]
  rw [newSpace_eq] at hcr3
  constructor
  · intro hmade
    have hspace := hmade.cr3
    rw [hresult, hcr3] at hspace
    have hpage : a.spacePage ≠ 0 := fun h0 => hspace (if_pos h0)
    rw [if_neg hpage] at hspace
    refine ⟨hpage, hspace, fun h0 => ?_⟩
    -- what was taken is the one page of the space
    obtain ⟨t, stack, -, -, hstack, -⟩ := hmade.thread
    rw [htaken, granted_ne_zero hpage, h0, granted, if_pos rfl, List.append_nil,
      List.mem_singleton] at hstack
    exact absurd (Prod.mk.inj hstack).2 (by decide)
  · rintro ⟨hpage, hphys, hstack⟩
    obtain ⟨q', hlinks, hcount⟩ := h.queued_once hc hp ht
    refine ⟨?_, ?_, ⟨_, a.stack, q', hparent.trans hresult.symm, ?_, hks, hlinks, hcount⟩⟩
    · rw [hresult]
      exact Nat.succ_ne_zero _
    · rw [hresult, hcr3, if_neg hpage]
      exact hphys
    · rw [htaken, granted_ne_zero hstack]
      exact List.mem_append_right _ (List.mem_singleton_self _)

end Made

/-- **`process_create` makes a process or leaves nothing exactly where it is
all or nothing**, in every state with its queue in order and for every
answer that is free memory. -/
theorem createLedger_settled_iff (h : w.Inv q) (hfree : GivenFree w a) :
    Made (createLedger w.kernel a) ∨ CleanedUp w.kernel q (createLedger w.kernel a) ↔
      AllOrNothing w.kernel a := by
  obtain ⟨hc, hspace, hown⟩ := hfree
  unfold AllOrNothing
  -- one case for each way through the call
  by_cases hp : processObject w.kernel a = 0
  · exact iff_of_true (Or.inr (h.cleanedUp_no_process hc hp)) (Or.inl hp)
  by_cases ht : threadObject w.kernel a = 0
  · have hnull : (createLedger w.kernel a).result = 0 := by
      rw [createLedger_no_thread h.sized hspace hp ht]
    have hmade : ¬ Made (createLedger w.kernel a) := fun hm => hm.process hnull
    rw [or_iff_right hmade, h.cleanedUp_no_thread_iff hc hspace hp ht]
    exact ⟨fun h0 => Or.inr (Or.inl ⟨ht, h0⟩), fun hall => by
      rcases hall with h0 | ⟨-, h0⟩ | ⟨h0, -⟩
      · exact absurd h0 hp
      · exact h0
      · exact absurd ht h0⟩
  · have hclean : ¬ CleanedUp w.kernel q (createLedger w.kernel a) := by
      intro hcu
      have hnull := hcu.null
      rw [h.createLedger_made hp ht] at hnull
      exact absurd hnull (Nat.succ_ne_zero _)
    rw [or_iff_left hclean, h.made_iff hc (hown ⟨hp, ht⟩) hp ht]
    exact ⟨fun hall => Or.inr (Or.inr ⟨ht, hall⟩), fun hall => by
      rcases hall with h0 | ⟨h0, -⟩ | ⟨-, hall⟩
      · exact absurd h0 hp
      · exact absurd h0 ht
      · exact hall⟩

/-- The first process, with all four answers. -/
theorem createLedger_settled_first :
    let a := createWith 0xFFFF800000300000 0xFFFF800000310000 0xFFFF800001000000
    Made (createLedger (World.start bootKernel).kernel a) ∨
      CleanedUp (World.start bootKernel).kernel [] (createLedger (World.start bootKernel).kernel a) :=
  (createLedger_settled_iff (World.Inv.start (fun _ => rfl) (by decide)) (by decide +kernel)).2
    (by decide)

/-- **Three calls with one answer missing each.** Without an address space
the process has `0` for its tables; without a stack the thread has its
stack below `0x10000`; and without a block for the thread the page of
the address space is kept. -/
theorem createLedger_one_missing :
    let noSpace := createLedger bootKernel
      { createWith 0xFFFF800000300000 0xFFFF800000310000 0xFFFF800001000000 with spacePage := 0 }
    let noStack := createLedger bootKernel (createWith 0xFFFF800000300000 0xFFFF800000310000 0)
    let noThread := createLedger bootKernel (createWith 0xFFFF800000300000 0 0xFFFF800001000000)
    (noSpace.result ≠ 0 ∧ cr3Of noSpace.kernel.mem noSpace.result = 0 ∧
      ¬ (Made noSpace ∨ CleanedUp bootKernel [] noSpace)) ∧
    (noStack.result ≠ 0 ∧ kernelStackOf noStack.kernel.mem noStack.kernel.rq.head = 0x10000 ∧
      ¬ (Made noStack ∨ CleanedUp bootKernel [] noStack)) ∧
    (noThread.taken = [(0xFFFF800000280000, 1)] ∧ noThread.released = [] ∧
      ¬ (Made noThread ∨ CleanedUp bootKernel [] noThread)) := by
  intro noSpace noStack noThread
  -- what the three calls compute; the property then fails by one of its parts
  have hspace : noSpace.result ≠ 0 ∧ cr3Of noSpace.kernel.mem noSpace.result = 0 := by decide +kernel
  have hstack : noStack.result ≠ 0 ∧ kernelStackOf noStack.kernel.mem noStack.kernel.rq.head = 0x10000 ∧
      noStack.taken = [(0xFFFF800000280000, 1)] := by decide +kernel
  have hthread : noThread.result = 0 ∧ noThread.taken = [(0xFFFF800000280000, 1)] ∧
      noThread.released = [] := by decide +kernel
  refine ⟨⟨hspace.1, hspace.2, ?_⟩, ⟨hstack.1, hstack.2.1, ?_⟩, ⟨hthread.2.1, hthread.2.2, ?_⟩⟩
  · rintro (hmade | hclean)
    · exact hmade.cr3 hspace.2
    · exact hspace.1 hclean.null
  · rintro (hmade | hclean)
    · obtain ⟨t, stack, q, -, htaken, -⟩ := hmade.thread
      rw [hstack.2.2, List.mem_singleton] at htaken
      exact absurd (Prod.mk.inj htaken).2 (by decide)
    · exact hstack.1 hclean.null
  · rintro (hmade | hclean)
    · exact hmade.process hthread.1
    · have hback := hclean.pages (0xFFFF800000280000, 1)
      rw [hthread.2.1, hthread.2.2] at hback
      cases hback List.mem_cons_self

end Sched

end Kos
