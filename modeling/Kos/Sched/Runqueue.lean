import Kos.Sched.Create
/-!
# Sched — the run queue over a run

The queue and the current thread share out the threads that were
created, as long as nothing but the queue writes to their structures.
What else is written comes from the allocators: `process_create` gets
its blocks from the heap and its stack from the page allocator, clears
them and writes to them. The blocks of `kmalloc` run past their slots,
and a thread block is one of those: its `next` field is the link of the
slot after it. So the condition on a run is that what a call obtains is
off the threads that exist.
-/

namespace Kos

namespace Sched

open Asm Kmalloc

variable {mem mem' : ByteMem} {q : List ℕ} {t u x : ℕ} {k : Kernel}

/-! ## Creating a process -/

/-- **What a call of `process_create` obtains is off a thread**: a page that
is split, the block of the process, the page of the address space, and,
if there is one, the block of the thread with the mark before it and the
bytes past its slot, the stack and the frame on it. -/
structure CreateOff (k : Kernel) (a : CreateArgs) (u : ℕ) : Prop where
  processPage : Splits k.heap processClass a.processPage → Off a.processPage pageSize u
  processBlock : nextObject k.heap processClass a.processPage ≠ 0 →
    Off (nextObject k.heap processClass a.processPage) (headerSize + processSize) u
  spacePage : nextObject k.heap processClass a.processPage ≠ 0 → a.spacePage ≠ 0 →
    Off a.spacePage pageSize u
  threadPage : nextObject k.heap processClass a.processPage ≠ 0 →
    Splits k.heap threadClass a.threadPage → Off a.threadPage pageSize u
  threadBlock : nextObject k.heap processClass a.processPage ≠ 0 →
    nextObject k.heap threadClass a.threadPage ≠ 0 →
    Off (nextObject k.heap threadClass a.threadPage + 8) (8 + threadSize) u
  stack : nextObject k.heap processClass a.processPage ≠ 0 →
    nextObject k.heap threadClass a.threadPage ≠ 0 → a.stack ≠ 0 → Off a.stack (4 * pageSize) u
  frame : nextObject k.heap processClass a.processPage ≠ 0 →
    nextObject k.heap threadClass a.threadPage ≠ 0 → Off (a.stack + 0x10000 - 72) 64 u

instance {k : Kernel} {a : CreateArgs} {u : ℕ} : Decidable (CreateOff k a u) :=
  decidable_of_iff (_ ∧ _ ∧ _ ∧ _ ∧ _ ∧ _ ∧ _)
    ⟨fun ⟨h1, h2, h3, h4, h5, h6, h7⟩ => ⟨h1, h2, h3, h4, h5, h6, h7⟩,
      fun h => ⟨h.processPage, h.processBlock, h.spacePage, h.threadPage, h.threadBlock, h.stack,
        h.frame⟩⟩

/-- What is written off a thread leaves it alone. -/
theorem Off.not_mem {a n : ℕ} (h : Off a n u) (h1 : u ≤ x) (h2 : x < u + usedSize) :
    ¬ (a ≤ x ∧ x < a + n) := by
  simp only [Off] at h
  omega

/-- Serving a request writes to the block and to the page that is split. -/
theorem serves_same {h : Heap} {i : Fin 8} {size answer : ℕ} {r : Result}
    (hs : Serves h i size answer r) (hsplit : Splits h i answer → Off answer pageSize u)
    (hblock : nextObject h i answer ≠ 0 → Off (nextObject h i answer + 8) (8 + size) u) :
    SameThread h.mem r.heap.mem u := by
  intro x h1 h2
  refine hs.frame x (fun hc => (hsplit hc).not_mem h1 h2) fun hne => ?_
  have hobj : nextObject h i answer ≠ 0 := by
    intro hc
    rw [hs.ptr, if_pos hc] at hne
    exact hne rfl
  have := (hblock hobj).not_mem h1 h2
  simp only [headerSize]
  omega

/-- What is beside the block of a process and the page of its tables is as
it was when its fields are filled in. -/
theorem fillProcess_of_not_mem {p pid name page cr3 : ℕ} {row : ℕ → ℕ}
    (hp : ¬ (p ≤ x ∧ x < p + 48)) (hpage : page ≠ 0 → ¬ (page ≤ x ∧ x < page + pageSize)) :
    fillProcess mem p pid name page row cr3 x = mem x := by
  have htable : ∀ mem : ByteMem, (if page = 0 then mem else writeTable mem page row) x = mem x := by
    intro mem
    split_ifs with h0
    · rfl
    · exact if_neg (hpage h0)
  simp only [fillProcess]
  rw [ByteMem.store_of_not_mem (by omega), htable, Function.update_of_ne (by omega),
    strncpy_of_not_mem (by omega), ByteMem.store_of_not_mem (by omega)]

/-- The fields of a process are in its block, and its tables in their page. -/
theorem fillProcess_same {p pid name page cr3 : ℕ} {row : ℕ → ℕ} (h : Off p 48 u)
    (hpage : page ≠ 0 → Off page pageSize u) :
    SameThread mem (fillProcess mem p pid name page row cr3) u := fun _ h1 h2 =>
  fillProcess_of_not_mem (h.not_mem h1 h2) fun h0 => (hpage h0).not_mem h1 h2

/-- A new thread is written to its block, to its stack and to its process. -/
theorem buildThread_same {p tid stack : ℕ} {entry : UInt64} (ht : Off t threadSize u)
    (hp : Off p processSize u) (hstack : stack ≠ 0 → Off stack (4 * pageSize) u)
    (hframe : Off (stack + 0x10000 - 72) 64 u) (hlt : stack + 0x10000 < 2 ^ 64) :
    SameThread mem (buildThread mem t p tid stack entry) u := by
  intro x h1 h2
  have hxt := ht.not_mem h1 h2
  have hxp := hp.not_mem h1 h2
  have hxf := hframe.not_mem h1 h2
  simp only [threadSize] at hxt
  simp only [processSize] at hxp
  have hks : add64 stack 0x10000 = stack + 0x10000 := add64_of_lt hlt
  have hclear : ∀ mem : ByteMem, (if stack = 0 then mem else mem.fill stack (4 * pageSize) 0) x = mem x := by
    intro mem
    split
    · rfl
    · rename_i hne
      exact ByteMem.fill_of_not_mem ((hstack hne).not_mem h1 h2)
  have hpush : ∀ mem : ByteMem, (initialFrame mem (stack + 0x10000) entry.toNat).2 x = mem x :=
    fun mem => (initialFrame_spec mem _ 0 (by omega) hlt).2.2 x (by omega)
  simp only [buildThread, hks, threadSize]
  rw [ByteMem.copy_of_not_mem (by omega), ByteMem.store_of_not_mem (by simp only [rspAt]; omega), hpush,
    ByteMem.store_of_not_mem (by simp only [rspAt]; omega), ByteMem.store_of_not_mem (by omega), hclear,
    ByteMem.store_of_not_mem (by omega), ByteMem.store_of_not_mem (by omega),
    ByteMem.store_of_not_mem (by omega), ByteMem.store_of_not_mem (by omega)]

/-- **What `process_create` does** to the threads that exist: nothing, or
it puts one more on the queue. -/
inductive Created (k : Kernel) (a : CreateArgs) (us : List ℕ) : ℕ × Kernel → Prop
  | failed (k' : Kernel) (hrq : k'.rq = k.rq) (hcur : k'.current = k.current) (hsz : Sized k'.heap)
      (hsame : ∀ u ∈ us, SameThread k.mem k'.mem u) : Created k a us (0, k')
  | queued (p : ℕ) (k' : Kernel) (hp : p ≠ 0) (hrq : k'.rq = k.rq) (hcur : k'.current = k.current)
      (hsz : Sized k'.heap) (hsame : ∀ u ∈ us, SameThread k.mem k'.mem u)
      (hobj : nextObject k.heap processClass a.processPage ≠ 0 ∧
        nextObject k.heap threadClass a.threadPage ≠ 0) :
      Created k a us
        (p, enqueue k' (nextObject k.heap threadClass a.threadPage + headerSize))

/-- Making the process leaves a thread alone that its memory is off. -/
theorem filledHeap_same {a : CreateArgs} (hsz : Sized k.heap) (h : CreateOff k a u)
    (hp : processObject k a ≠ 0) : SameThread k.mem (filledHeap k a).mem u := by
  have hblock : Off (processObject k a) (headerSize + processSize) u := h.processBlock hp
  have hserves : SameThread k.mem (processBlock k a).heap.mem u :=
    serves_same (processBlock_serves hsz) h.processPage fun _ => by
      simp only [Off, headerSize, processObject] at hblock ⊢
      omega
  -- the fields of the process are in its own block
  refine hserves.trans (fillProcess_same ?_ (h.spacePage hp))
  rw [processBlock_ptr hsz, if_neg hp]
  simp only [Off, headerSize, processSize] at hblock ⊢
  omega

/-- So does asking for the block of the thread. -/
theorem threadBlock_same {a : CreateArgs} (hsz : Sized k.heap) (h : CreateOff k a u)
    (hp : processObject k a ≠ 0) : SameThread k.mem (threadBlock k a).heap.mem u := by
  obtain ⟨hobj, hsplit⟩ := nextObject_filledHeap (a := a) hsz
  refine (filledHeap_same hsz h hp).trans (serves_same (threadBlock_serves hsz) ?_ ?_)
  · exact fun hc => h.threadPage hp (hsplit.1 hc)
  · rw [hobj]
    exact h.threadBlock hp

/-- And building the thread. -/
theorem builtHeap_same {a : CreateArgs} (hsz : Sized k.heap) (hlt : a.stack + 0x10000 < 2 ^ 64)
    (h : CreateOff k a u) (hp : processObject k a ≠ 0) (ht : threadObject k a ≠ 0) :
    SameThread k.mem (builtHeap k a).mem u := by
  have hblock : Off (processObject k a) (headerSize + processSize) u := h.processBlock hp
  have hblock' : Off (threadObject k a + 8) (8 + threadSize) u := h.threadBlock hp ht
  refine (threadBlock_same hsz h hp).trans
    (buildThread_same ?_ ?_ (h.stack hp ht) (h.frame hp ht) hlt)
  · rw [threadBlock_ptr hsz, if_neg ht]
    simp only [Off, headerSize, threadSize] at hblock' ⊢
    omega
  · rw [processBlock_ptr hsz, if_neg hp]
    simp only [Off, headerSize, processSize] at hblock ⊢
    omega

theorem processCreate_created {a : CreateArgs} {us : List ℕ} (hsz : Sized k.heap)
    (hlt : a.stack + 0x10000 < 2 ^ 64) (hoff : ∀ u ∈ us, CreateOff k a u) :
    Created k a us (processCreate k a) := by
  have hsized := processCreate_sized (a := a) hsz
  rcases processCreate_cases hsz a with ⟨hp, hres⟩ | ⟨hp, ht, hres⟩ | ⟨hp, ht, hres⟩
  · rw [hres] at hsized ⊢
    refine .failed _ rfl rfl hsized fun u hu => ?_
    exact serves_same (processBlock_serves hsz) (hoff u hu).processPage fun hc => absurd hp hc
  · -- no block for the thread: the process is given back
    rw [hres] at hsized ⊢
    simp only at hsized
    refine .failed _ (withProcess_rq ..) (withProcess_current ..) hsized fun u hu => ?_
    rw [withProcess_mem]
    refine (threadBlock_same hsz (hoff u hu) hp).trans fun x h1 h2 => kfree_of_not_mem ?_
    have hblock : Off (processObject k a) (headerSize + processSize) u := (hoff u hu).processBlock hp
    have := hblock.not_mem h1 h2
    simp only [headerSize, processSize] at this ⊢
    omega
  · rw [hres]
    refine .queued _ _ (Nat.succ_ne_zero _) rfl rfl ((threadBlock_serves hsz).sized.setMem _) ?_ ⟨hp, ht⟩
    exact fun u hu => builtHeap_same hsz hlt (hoff u hu) hp ht

/-! ## Runs -/

/-- The kernel, the threads created so far, and the thread that was running
before, if there was one. -/
structure World where
  kernel : Kernel
  created : List ℕ
  other : List ℕ

/-- The threads that exist. -/
def World.all (w : World) : List ℕ := w.created ++ w.other

/-- Record what `process_create` did. A thread that is created is the last
one on the queue. -/
def World.record (w : World) (r : ℕ × Kernel) : World :=
  { w with
    kernel := r.2
    created := if r.1 = 0 then w.created else r.2.rq.tail :: w.created }

/-- **One call.** -/
def World.step (w : World) : Op → World
  | .create a => w.record (processCreate w.kernel a)
  | .schedule cpu => { w with kernel := schedule w.kernel cpu }
  | .yield cpu => { w with kernel := Sched.yield w.kernel cpu }
  | .sleep ms cpu => { w with kernel := Sched.sleep w.kernel ms cpu }

/-- The world after `scheduler_init`, with any current thread or none. -/
def World.start (k : Kernel) : World where
  kernel := schedulerInit k
  created := []
  other := if k.current = 0 then [] else [k.current]

/-- What a switch saves is off the threads. -/
def SwitchOff (w : World) (cpu : Machine) : Prop :=
  w.kernel.current ≠ 0 → w.kernel.rq.head ≠ 0 →
    48 ≤ (cpu.reg .rsp).toNat ∧ ∀ u ∈ w.all, Off ((cpu.reg .rsp).toNat - 48) 48 u

/-- **The condition on a call**: what it writes for others is off the
threads that exist, and the count does not wrap. -/
def Op.Clear (w : World) : Op → Prop
  | .create a =>
    w.kernel.rq.nrRunning + 1 < 2 ^ 32 ∧ a.stack + 0x10000 < 2 ^ 64 ∧
      nextObject w.kernel.heap threadClass a.threadPage + headerSize + usedSize ≤ 2 ^ 64 ∧
      ∀ u ∈ w.all, CreateOff w.kernel a u
  | .schedule cpu => SwitchOff w cpu
  | .yield cpu => SwitchOff w cpu
  | .sleep _ cpu => SwitchOff w cpu

instance {w : World} : DecidablePred (Op.Clear w)
  | .create _ => inferInstanceAs (Decidable (_ ∧ _ ∧ _ ∧ _))
  | .schedule _ => inferInstanceAs (Decidable (_ → _ → _ ∧ _))
  | .yield _ => inferInstanceAs (Decidable (_ → _ → _ ∧ _))
  | .sleep _ _ => inferInstanceAs (Decidable (_ → _ → _ ∧ _))

/-- **The run queue is in order**: a finite list without repetition that
ends at its tail and has as many threads as are counted; the current
thread is not on it, and every thread that was created is the current
one or on it once. -/
structure RunqueueOk (w : World) (q : List ℕ) : Prop where
  links : Links (nextOf w.kernel.mem) w.kernel.rq.head q 0
  nodup : q.Nodup
  tail : w.kernel.rq.tail = q.getLastD 0
  count : w.kernel.rq.nrRunning = q.length
  current : w.kernel.current ∉ q
  placed : ∀ t ∈ w.created, (t = w.kernel.current ∧ t ∉ q) ∨ (t ≠ w.kernel.current ∧ q.count t = 1)

/-- **The invariant of a run.** -/
structure World.Inv (w : World) (q : List ℕ) : Prop where
  known : Known w.all
  queue : QueueOk w.kernel.mem w.kernel.rq q
  length : q.length < 2 ^ 32
  queued : ∀ t ∈ q, t ∈ w.all
  current : w.kernel.current ≠ 0 → w.kernel.current ∈ w.all
  off : w.kernel.current ∉ q
  placed : ∀ t ∈ w.created, t = w.kernel.current ∨ t ∈ q
  running : ∀ t ∈ w.created, stateOf w.kernel.mem t = taskRunning
  sized : Sized w.kernel.heap

variable {w : World}

theorem World.Inv.ok (h : w.Inv q) : RunqueueOk w q := by
  refine ⟨h.queue.links, h.queue.nodup, h.queue.tail, ?_, h.off, ?_⟩
  · rw [h.queue.count, Nat.mod_eq_of_lt h.length]
  · intro t ht
    rcases h.placed t ht with rfl | hq
    · exact Or.inl ⟨rfl, h.off⟩
    · exact Or.inr ⟨fun hc => h.off (hc ▸ hq), List.count_eq_one_of_mem h.queue.nodup hq⟩

/-- A call that leaves the threads and the queue alone. -/
theorem World.Inv.keep {k' : Kernel} (h : w.Inv q) (hrq : k'.rq = w.kernel.rq)
    (hcur : k'.current = w.kernel.current) (hsz : Sized k'.heap)
    (hnext : ∀ u ∈ w.all, nextOf k'.mem u = nextOf w.kernel.mem u)
    (hstate : ∀ u ∈ w.all, stateOf k'.mem u = stateOf w.kernel.mem u) :
    World.Inv { w with kernel := k' } q := by
  refine ⟨h.known, ?_, h.length, h.queued, ?_, ?_, ?_, ?_, hsz⟩
  · simp only
    rw [hrq]
    exact h.queue.congr fun t ht => hnext t (h.queued t ht)
  · simp only
    rw [hcur]
    exact h.current
  · simp only
    rw [hcur]
    exact h.off
  · simp only
    rw [hcur]
    exact h.placed
  · intro t ht
    rw [← h.running t ht]
    exact hstate t (List.mem_append_left _ ht)

/-- One more thread, off those that exist. -/
theorem Known.cons {threads : List ℕ} (h : Known threads) (h0 : t ≠ 0) (hlt : t + usedSize ≤ 2 ^ 64)
    (hap : ∀ u ∈ threads, Apart t u) : Known (t :: threads) :=
  ⟨List.forall_mem_cons.2 ⟨h0, h.ne_zero⟩, List.forall_mem_cons.2 ⟨hlt, h.lt⟩,
    List.pairwise_cons.2 ⟨hap, h.apart⟩⟩

/-- **One more thread is put on the queue.** -/
theorem World.Inv.push (h : w.Inv q) (hlen : q.length + 1 < 2 ^ 32) (h0 : t ≠ 0)
    (hlt : t + usedSize ≤ 2 ^ 64) (hap : ∀ u ∈ w.all, Apart t u) :
    World.Inv { w with kernel := enqueue w.kernel t, created := t :: w.created } (q ++ [t]) := by
  have hnew : t ∉ w.all := by
    intro hmem
    have := hap t hmem
    simp only [Apart, Off, usedSize] at this
    omega
  have hknown : Known (t :: w.all) := h.known.cons h0 hlt hap
  have ht : t ∈ t :: w.all := List.mem_cons_self
  have hqueued : ∀ u ∈ q, u ∈ t :: w.all := fun u hu => List.mem_cons_of_mem t (h.queued u hu)
  have hstate := enqueue_state hknown hqueued h.queue ht
  obtain ⟨hcur, mem', hheap⟩ := enqueue_frame w.kernel t
  refine ⟨hknown, enqueue_queue hknown hqueued h.queue ht fun hc => hnew (h.queued t hc), ?_, ?_, ?_,
    ?_, ?_, ?_, ?_⟩
  · rwa [List.length_append, List.length_singleton]
  · intro u hu
    rcases List.mem_append.1 hu with hu | hu
    · exact hqueued u hu
    · rw [List.mem_singleton.1 hu]
      exact ht
  · simp only [hcur]
    intro hne
    exact List.mem_cons_of_mem t (h.current hne)
  · simp only [hcur]
    intro hmem
    rcases List.mem_append.1 hmem with hmem | hmem
    · exact h.off hmem
    · have hz := List.mem_singleton.1 hmem
      exact hnew (hz ▸ h.current (hz ▸ h0))
  · simp only [hcur]
    intro u hu
    rcases List.mem_cons.1 hu with rfl | hu
    · exact Or.inr (List.mem_append_right q (List.mem_singleton_self u))
    · exact (h.placed u hu).imp_right fun hq => List.mem_append_left _ hq
  · intro u hu
    rcases List.mem_cons.1 hu with rfl | hu
    · exact hstate.1
    · have hall : u ∈ w.all := List.mem_append_left _ hu
      have hne : u ≠ t := fun hc => hnew (hc ▸ hall)
      exact (hstate.2 u (List.mem_cons_of_mem t hall) hne).trans (h.running u hu)
  · simp only [hheap]
    exact h.sized.setMem mem'

/-- **`process_create` keeps the queue in order.** -/
theorem World.Inv.create {a : CreateArgs} (h : w.Inv q) (hc : Op.Clear w (.create a)) :
    ∃ q', (w.step (.create a)).Inv q' := by
  obtain ⟨hcount, hstack, hend, hoff⟩ := hc
  have hcreated := processCreate_created h.sized hstack hoff
  change ∃ q', (w.record (processCreate w.kernel a)).Inv q'
  generalize processCreate w.kernel a = r at hcreated ⊢
  have hkeep : ∀ k' : Kernel, k'.rq = w.kernel.rq → k'.current = w.kernel.current →
      Sized k'.heap → (∀ u ∈ w.all, SameThread w.kernel.mem k'.mem u) →
      World.Inv { w with kernel := k' } q := fun k' hrq hcur hsz hsame =>
    h.keep hrq hcur hsz (fun u hu => (hsame u hu).next) fun u hu => (hsame u hu).state
  cases hcreated with
  | failed k' hrq hcur hsz hsame => exact ⟨q, hkeep k' hrq hcur hsz hsame⟩
  | queued p k' hp hrq hcur hsz hsame hobj =>
    have hblock := fun u hu => (hoff u hu).threadBlock hobj.1 hobj.2
    simp only [World.record, if_neg hp, enqueue_tail]
    refine ⟨_, (hkeep k' hrq hcur hsz hsame).push ?_ (Nat.succ_ne_zero _) hend fun u hu => ?_⟩
    · have hlen := h.queue.count
      rw [Nat.mod_eq_of_lt h.length] at hlen
      omega
    · have := hblock u hu
      simp only [Apart, Off, usedSize, headerSize, threadSize] at this ⊢
      omega

/-- A thread on the queue when the current one is back can run. -/
theorem mem_runnable {k : Kernel} (hcur : t = k.current → t ≠ 0 ∧ stateOf k.mem t = taskRunning)
    (ht : t = k.current ∨ t ∈ q) : t ∈ runnable k q := by
  unfold runnable
  split
  · rcases ht with rfl | ht
    · exact List.mem_append_right q (List.mem_singleton_self _)
    · exact List.mem_append_left _ ht
  · rename_i hc
    rcases ht with rfl | ht
    · exact absurd (hcur rfl) hc
    · exact ht

/-- **What `schedule` picks keeps the queue in order**, and where it
switches there was a thread to switch to. -/
theorem World.Inv.pick (h : w.Inv q) :
    ∃ q', World.Inv { w with kernel := (pickNext w.kernel).1 } q' ∧
      ∀ prev next, (pickNext w.kernel).2 = .switch prev next →
        prev = w.kernel.current ∧ prev ≠ 0 ∧ w.kernel.rq.head ≠ 0 := by
  obtain ⟨hstate, hpick⟩ := pickNext_queue h.known h.queued h.queue h.current h.off
  obtain ⟨hback, hmem, -⟩ := putBack_queue h.known h.queued h.queue h.current h.off
  obtain ⟨mem', hheap⟩ := pickNext_heap w.kernel
  have hsized : Sized (pickNext w.kernel).1.heap := by
    rw [hheap]
    exact h.sized.setMem mem'
  have hrunning : ∀ t ∈ w.created, stateOf (pickNext w.kernel).1.mem t = taskRunning := fun t ht =>
    (hstate t (List.mem_append_left _ ht)).trans (h.running t ht)
  have hplaced : ∀ t ∈ w.created, t ∈ runnable w.kernel q := by
    intro t ht
    refine mem_runnable (fun _ => ⟨?_, h.running t ht⟩) (h.placed t ht)
    exact h.known.ne_zero t (List.mem_append_left _ ht)
  obtain ⟨hnone, hout, hcur, hqueue⟩ | ⟨next, rest, hsome, hcur, hqueue, hout⟩ := hpick
  · -- nothing can run, so nothing was created
    have hempty : ∀ t, t ∉ w.created := by
      intro t ht
      have := hplaced t ht
      rw [hnone] at this
      cases this
    refine ⟨[], ⟨h.known, hqueue, by decide, fun t ht => absurd ht List.not_mem_nil, ?_,
      List.not_mem_nil, fun t ht => absurd ht (hempty t), hrunning, hsized⟩, ?_⟩
    · simp only [hcur]
      exact h.current
    · intro prev next hc
      rw [hout] at hc
      cases hc
  · rw [hsome] at hmem hplaced hback
    have hnodup := List.nodup_cons.1 hback.nodup
    have hlength : rest.length ≤ q.length := by
      have hlen := congrArg List.length hsome
      unfold runnable at hlen
      split at hlen
      · simp only [List.length_append, List.length_cons, List.length_nil] at hlen
        omega
      · simp only [List.length_cons] at hlen
        omega
    refine ⟨rest, ⟨h.known, hqueue, lt_of_le_of_lt hlength h.length,
      fun t ht => hmem t (List.mem_cons_of_mem next ht), ?_, ?_, ?_, hrunning, hsized⟩, ?_⟩
    · simp only [hcur]
      exact fun _ => hmem next List.mem_cons_self
    · simp only [hcur]
      exact hnodup.1
    · simp only [hcur]
      exact fun t ht => List.mem_cons.1 (hplaced t ht)
    · intro prev next' hc
      rw [hout] at hc
      split at hc
      · rename_i hne
        obtain ⟨rfl, rfl⟩ := Outcome.switch.inj hc
        refine ⟨rfl, hne.1, fun hz => ?_⟩
        -- an empty queue would give the current thread back
        rw [h.queue.head_eq_zero_iff.1 hz] at hsome
        unfold runnable at hsome
        split at hsome
        · exact hne.2 (List.cons.inj hsome).1
        · cases hsome
      · cases hc

/-- **`schedule` keeps the queue in order.** -/
theorem World.Inv.schedule {cpu : Machine} (h : w.Inv q) (hc : SwitchOff w cpu) :
    ∃ q', World.Inv { w with kernel := Sched.schedule w.kernel cpu } q' := by
  obtain ⟨q', hinv, hswitch⟩ := h.pick
  refine ⟨q', ?_⟩
  unfold Sched.schedule
  generalize pickNext w.kernel = r at hinv hswitch ⊢
  obtain ⟨k', out⟩ := r
  cases out with
  | idle => exact hinv
  | stay => exact hinv
  | switch prev next =>
    obtain ⟨rfl, h0, hhead⟩ := hswitch prev next rfl
    obtain ⟨hroom, hoff⟩ := hc h0 hhead
    have hthread := fun u hu => switchTo_thread (k := k') next h.known (h.current h0) hu hroom
      (hoff u hu)
    exact hinv.keep rfl rfl (hinv.sized.setMem _) (fun u hu => (hthread u hu).1)
      fun u hu => (hthread u hu).2

theorem World.Inv.step {op : Op} (h : w.Inv q) (hc : op.Clear w) : ∃ q', (w.step op).Inv q' := by
  cases op with
  | create a => exact h.create hc
  | schedule cpu => exact h.schedule hc
  | yield cpu => exact h.schedule hc
  | sleep ms cpu => exact h.schedule hc

/-- After `scheduler_init` the queue is empty. -/
theorem World.Inv.start {k : Kernel} (hsz : Sized k.heap) (hlt : k.current + usedSize ≤ 2 ^ 64) :
    (World.start k).Inv [] := by
  have hknown : Known (World.start k).all := by
    unfold World.all World.start
    split
    · exact ⟨fun t ht => absurd ht List.not_mem_nil, fun t ht => absurd ht List.not_mem_nil,
        List.Pairwise.nil⟩
    · rename_i hne
      exact ⟨fun t ht => List.mem_singleton.1 ht ▸ hne, fun t ht => List.mem_singleton.1 ht ▸ hlt,
        List.pairwise_singleton _ _⟩
  refine ⟨hknown, ⟨rfl, List.nodup_nil, rfl, rfl⟩, by decide, fun t ht => absurd ht List.not_mem_nil,
    ?_, List.not_mem_nil, fun t ht => absurd ht List.not_mem_nil,
    fun t ht => absurd ht List.not_mem_nil, hsz⟩
  intro hne
  have hne' : k.current ≠ 0 := hne
  change k.current ∈ [] ++ (if k.current = 0 then [] else [k.current])
  rw [if_neg hne']
  exact List.mem_singleton_self _

/-- **The run queue is in order in every run** of `process_create` and
`schedule` from `scheduler_init`, whatever the allocators answer, in
which what the calls write for others is off the threads that exist. -/
theorem runqueue_in_order {k : Kernel} (hsz : Sized k.heap) (hlt : k.current + usedSize ≤ 2 ^ 64)
    {ops : List Op} (hrun : Allowed World.step (fun w op => op.Clear w) (World.start k) ops) :
    ∃ q, RunqueueOk (runFrom World.step (World.start k) ops) q := by
  have hstep : ∀ (w : World) (op : Op), (∃ q, w.Inv q) → op.Clear w → ∃ q, (w.step op).Inv q := by
    intro w op hw hop
    obtain ⟨q, hq⟩ := hw
    exact hq.step hop
  obtain ⟨q, hq⟩ := hrun.invariant hstep ⟨[], World.Inv.start hsz hlt⟩
  exact ⟨q, hq.ok⟩

/-- Two threads are created, and the boot code schedules twice. -/
theorem runqueue_in_order_two :
    ∃ q, RunqueueOk (runFrom World.step (World.start bootKernel)
      [.create (createWith 0xFFFF800000300000 0xFFFF800000310000 0xFFFF800001000000),
        .create (createWith 0 0 0xFFFF800001010000), .schedule bootCpu, .schedule bootCpu]) q :=
  runqueue_in_order (fun i => rfl) (by decide) (by decide +kernel)

/-- Three threads are created and the boot code schedules twice; the thread
that runs then creates two more. -/
def overlapRun : List Op :=
  [.create (createWith 0xFFFF800000300000 0xFFFF800000310000 0xFFFF800001000000),
    .create (createWith 0 0 0xFFFF800001010000),
    .create (createWith 0 0xFFFF800000311000 0xFFFF800001020000),
    .schedule bootCpu, .schedule bootCpu,
    .create (createWith 0 0 0xFFFF800001030000),
    .create (createWith 0 0 0xFFFF800001040000)]

/-- **A thread block over another.** The `next` field of the third thread is
the link of the free slot after it. When the first thread is put back on
the queue behind it, its address is on the free list, and the last
thread is built 16 bytes into it. From the first thread the queue then
goes on to the stack of the last. -/
theorem thread_built_over_thread :
    let w := runFrom World.step (World.start bootKernel) overlapRun
    w.created.head? = some 0xFFFF800000310020 ∧ 0xFFFF800000310010 ∈ w.created ∧
      ∀ q, ¬ RunqueueOk w q := by
  intro w
  have hrun : w.created = [0xFFFF800000310020, 0xFFFF800000311050, 0xFFFF800000311010,
      0xFFFF800000310050, 0xFFFF800000310010] ∧ w.kernel.current = 0xFFFF800000310050 ∧
      w.kernel.rq.head = 0xFFFF800000311010 ∧
      [0xFFFF800000311010, 0xFFFF800000310010, 0xFFFF800001050000].map (nextOf w.kernel.mem) =
        [0xFFFF800000310010, 0xFFFF800001050000, 0] := by
    decide +kernel
  obtain ⟨hcreated, hcur, hhead, hnext⟩ := hrun
  simp only [List.map_cons, List.map_nil, List.cons.injEq, and_true] at hnext
  obtain ⟨hthird, hfirst, hstack⟩ := hnext
  have hlinks : Links (nextOf w.kernel.mem) w.kernel.rq.head
      [0xFFFF800000311010, 0xFFFF800000310010, 0xFFFF800001050000] 0 :=
    ⟨hhead, by decide, hthird, by decide, hfirst, by decide, hstack⟩
  rw [hcreated]
  refine ⟨rfl, by decide, fun q hq => ?_⟩
  -- the fourth thread is neither current nor reached
  have hmem : 0xFFFF800000311050 ∈ w.created := by
    rw [hcreated]
    decide
  rcases hq.placed _ hmem with ⟨hc, -⟩ | ⟨-, hc⟩
  · rw [hcur] at hc
    exact absurd hc (by decide)
  · rw [hq.links.unique hlinks] at hc
    exact absurd hc (by decide)

end Sched

end Kos
