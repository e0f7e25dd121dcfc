import Kos.Kmalloc.Footprint
import Kos.Sched.Queue
/-!
# Sched — the ways through `process_create`

A call asks for a block for the process, for an address space, for a
block for the thread and for a stack. It looks at two of the answers:
without a block for the process it returns, and without one for the
thread it frees the process and returns. Which way it goes is read off
the free lists and the page allocator's answers.
-/

namespace Kos

namespace Sched

open Kmalloc

variable {k : Kernel} {a : CreateArgs}

/-- The class of thread blocks. -/
abbrev threadClass : Fin 8 := ⟨2, by decide⟩

/-- The class of process blocks. -/
abbrev processClass : Fin 8 := ⟨3, by decide⟩

/-- The object a call gets for the process; `0` where there is none. -/
abbrev processObject (k : Kernel) (a : CreateArgs) : ℕ := nextObject k.heap processClass a.processPage

/-- The object a call gets for the thread, if it asks; `0` where there is
none. -/
abbrev threadObject (k : Kernel) (a : CreateArgs) : ℕ := nextObject k.heap threadClass a.threadPage

/-- The block for the process. -/
def processBlock (k : Kernel) (a : CreateArgs) : Result := kzalloc k.heap processSize a.processPage

/-- The address space. -/
def newSpace (k : Kernel) (a : CreateArgs) : ℕ × Vmm.Mm :=
  Vmm.vmmCreateAddressSpace ⟨k.tables, [a.spacePage]⟩ k.kernelPml4

/-- The heap with the process filled in. -/
def filledHeap (k : Kernel) (a : CreateArgs) : Heap :=
  { (processBlock k a).heap with
    mem := fillProcess (processBlock k a).heap.mem (processBlock k a).ptr k.nextPid a.name
      a.spacePage ((newSpace k a).2.tables a.spacePage) (newSpace k a).1 }

/-- The block for the thread. -/
def threadBlock (k : Kernel) (a : CreateArgs) : Result :=
  kzalloc (filledHeap k a) threadSize a.threadPage

/-- The kernel with the process counted and its tables written. -/
def withProcess (k : Kernel) (a : CreateArgs) (heap : Heap) : Kernel :=
  { k with
    heap := heap
    tables := (newSpace k a).2.tables
    nextPid := (k.nextPid + 1) % 2 ^ 32 }

@[simp] theorem withProcess_heap (k : Kernel) (a : CreateArgs) (heap : Heap) :
    (withProcess k a heap).heap = heap := rfl

@[simp] theorem withProcess_mem (k : Kernel) (a : CreateArgs) (heap : Heap) :
    (withProcess k a heap).mem = heap.mem := rfl

@[simp] theorem withProcess_rq (k : Kernel) (a : CreateArgs) (heap : Heap) :
    (withProcess k a heap).rq = k.rq := rfl

@[simp] theorem withProcess_current (k : Kernel) (a : CreateArgs) (heap : Heap) :
    (withProcess k a heap).current = k.current := rfl

/-- The heap with the thread built. -/
def builtHeap (k : Kernel) (a : CreateArgs) : Heap :=
  { (threadBlock k a).heap with
    mem := buildThread (threadBlock k a).heap.mem (threadBlock k a).ptr (processBlock k a).ptr
      k.nextTid a.stack a.entry }

/-- The kernel with the process and its thread, before the thread is
queued. -/
def withThread (k : Kernel) (a : CreateArgs) : Kernel :=
  { withProcess k a (builtHeap k a) with nextTid := (k.nextTid + 1) % 2 ^ 32 }

theorem withThread_mem (k : Kernel) (a : CreateArgs) :
    (withThread k a).mem = (builtHeap k a).mem := rfl

theorem withThread_rq (k : Kernel) (a : CreateArgs) : (withThread k a).rq = k.rq :=
  withProcess_rq k a (builtHeap k a)

theorem processCreate_eq (k : Kernel) (a : CreateArgs) :
    processCreate k a =
      if (processBlock k a).ptr = 0 then (0, { k with heap := (processBlock k a).heap })
      else if (threadBlock k a).ptr = 0 then
        (0, withProcess k a (kfree (threadBlock k a).heap (processBlock k a).ptr).1)
      else ((processBlock k a).ptr, enqueue (withThread k a) (threadBlock k a).ptr) := by
  unfold processCreate
  rfl

section Sized

variable (hsz : Sized k.heap)
include hsz

theorem processBlock_serves :
    Serves k.heap processClass processSize a.processPage (processBlock k a) :=
  kzalloc_serves hsz (by decide) (by decide)

theorem filledHeap_sized : Sized (filledHeap k a) := (processBlock_serves hsz).sized.setMem _

theorem threadBlock_serves :
    Serves (filledHeap k a) threadClass threadSize a.threadPage (threadBlock k a) :=
  kzalloc_serves (filledHeap_sized hsz) (by decide) (by decide)

/-- Making the process leaves the other classes alone. -/
theorem filledHeap_slabs {i : Fin 8} (hi : i ≠ processClass) :
    (ready (filledHeap k a)).slabs i = (ready k.heap).slabs i :=
  (congrFun (ready_setMem _ _) i).trans ((processBlock_serves hsz).others i hi)

theorem nextObject_filledHeap :
    nextObject (filledHeap k a) threadClass a.threadPage = threadObject k a ∧
      (Splits (filledHeap k a) threadClass a.threadPage ↔ Splits k.heap threadClass a.threadPage) :=
  nextObject_congr a.threadPage (filledHeap_slabs hsz (by decide))

theorem processBlock_ptr :
    (processBlock k a).ptr = if processObject k a = 0 then 0 else processObject k a + headerSize :=
  (processBlock_serves hsz).ptr

theorem threadBlock_ptr :
    (threadBlock k a).ptr = if threadObject k a = 0 then 0 else threadObject k a + headerSize := by
  rw [(threadBlock_serves hsz).ptr, (nextObject_filledHeap hsz).1]

/-- **The ways through `process_create`.** -/
theorem processCreate_cases (a : CreateArgs) :
    (processObject k a = 0 ∧ processCreate k a = (0, { k with heap := (processBlock k a).heap })) ∨
    (processObject k a ≠ 0 ∧ threadObject k a = 0 ∧ processCreate k a =
      (0, withProcess k a (kfree (threadBlock k a).heap (processObject k a + headerSize)).1)) ∨
    (processObject k a ≠ 0 ∧ threadObject k a ≠ 0 ∧ processCreate k a =
      (processObject k a + headerSize,
        enqueue (withThread k a) (threadObject k a + headerSize))) := by
  rw [processCreate_eq, processBlock_ptr hsz, threadBlock_ptr hsz]
  -- the pointer is `NULL` exactly where there is no object, which decides both tests
  by_cases hp : processObject k a = 0
  · rw [if_pos hp]
    exact Or.inl ⟨hp, if_pos rfl⟩
  · have hptr : processObject k a + headerSize ≠ 0 := Nat.succ_ne_zero _
    rw [if_neg hp, if_neg hptr]
    by_cases ht : threadObject k a = 0
    · rw [if_pos ht]
      exact Or.inr (Or.inl ⟨hp, ht, if_pos rfl⟩)
    · rw [if_neg ht]
      exact Or.inr (Or.inr ⟨hp, ht, if_neg (Nat.succ_ne_zero _)⟩)

end Sized

/-- A call makes a thread where it gets both blocks. -/
def MakesThread (k : Kernel) (a : CreateArgs) : Prop := processObject k a ≠ 0 ∧ threadObject k a ≠ 0

instance : Decidable (MakesThread k a) := inferInstanceAs (Decidable (_ ∧ _))

theorem processCreate_ne_zero_iff (hsz : Sized k.heap) :
    (processCreate k a).1 ≠ 0 ↔ MakesThread k a := by
  rcases processCreate_cases hsz a with ⟨hp, hres⟩ | ⟨-, ht, hres⟩ | ⟨hp, ht, hres⟩
  · rw [hres]
    exact ⟨fun hc => absurd rfl hc, fun hm => absurd hp hm.1⟩
  · rw [hres]
    exact ⟨fun hc => absurd rfl hc, fun hm => absurd ht hm.2⟩
  · rw [hres]
    exact ⟨fun _ => ⟨hp, ht⟩, fun _ => Nat.succ_ne_zero _⟩

/-- **`process_create` keeps the sizes of the caches.** -/
theorem processCreate_sized (hsz : Sized k.heap) : Sized (processCreate k a).2.heap := by
  rcases processCreate_cases hsz a with ⟨-, hres⟩ | ⟨-, -, hres⟩ | ⟨-, -, hres⟩
  · rw [hres]
    exact (processBlock_serves hsz).sized
  · rw [hres]
    simp only [withProcess_heap]
    exact (threadBlock_serves hsz).sized.kfree (threadBlock_serves hsz).initialized _
  · obtain ⟨-, mem, hmem⟩ := enqueue_frame (withThread k a) (threadObject k a + headerSize)
    have hbuilt : Sized (builtHeap k a) := (threadBlock_serves hsz).sized.setMem _
    rw [hres, hmem]
    exact hbuilt.setMem mem

end Sched

end Kos
