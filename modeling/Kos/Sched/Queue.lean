import Kos.Common.Linked
import Kos.Sched.Model
import Mathlib.Data.List.Pairwise
/-!
# Sched — the run queue is a queue

The threads on the run queue form a list through their `next` fields.
`enqueue` puts a thread at its end and `dequeue` takes the first one, as
long as the structures of the threads do not overlap. `schedule` puts
the current thread back and takes the first, and the switch it ends with
writes to a stack and to a saved stack pointer, so not to the queue.
-/

namespace Kos

namespace Sched

open Asm

variable {mem mem' : ByteMem} {rq : Runqueue} {q : List ℕ} {t u x : ℕ} {k : Kernel}

/-! ## Structures that keep their contents -/

/-- The fields of a thread that are used; `prev` is not. -/
abbrev usedSize : ℕ := 56

/-- A range off the structure of a thread. -/
def Off (a n t : ℕ) : Prop := a + n ≤ t ∨ t + usedSize ≤ a

instance {a n t : ℕ} : Decidable (Off a n t) := inferInstanceAs (Decidable (_ ∨ _))

/-- Threads whose structures do not overlap. -/
def Apart (t u : ℕ) : Prop := Off t usedSize u

theorem Apart.symm (h : Apart t u) : Apart u t := Or.symm h

/-- The structure of a thread is as it was. -/
def SameThread (mem mem' : ByteMem) (t : ℕ) : Prop := ∀ x, t ≤ x → x < t + usedSize → mem' x = mem x

theorem SameThread.next (h : SameThread mem mem' t) : nextOf mem' t = nextOf mem t :=
  ByteMem.load_congr fun x h1 h2 => h x (by simp only [nextAt] at h1; omega)
    (by simp only [nextAt, usedSize] at *; omega)

theorem SameThread.state (h : SameThread mem mem' t) : stateOf mem' t = stateOf mem t :=
  ByteMem.load_congr fun x h1 h2 => h x (by omega) (by simp only [usedSize]; omega)

/-- What is stored in one thread is not seen in another. -/
theorem Apart.sameThread_store {a n v : ℕ} (h : Apart t u) (h1 : t ≤ a) (h2 : a + n ≤ t + usedSize) :
    SameThread mem (mem.store a n v) u := by
  intro x hx hx'
  simp only [Apart, Off] at h
  exact ByteMem.store_of_not_mem (by omega)

theorem SameThread.trans {mem'' : ByteMem} (h : SameThread mem mem' t)
    (h' : SameThread mem' mem'' t) : SameThread mem mem'' t :=
  fun x h1 h2 => (h' x h1 h2).trans (h x h1 h2)

/-! ## The queue -/

/-- **The run queue is a finite list**: no thread twice, the tail its last
thread, and the count its length. -/
structure QueueOk (mem : ByteMem) (rq : Runqueue) (q : List ℕ) : Prop where
  links : Links (nextOf mem) rq.head q 0
  nodup : q.Nodup
  tail : rq.tail = q.getLastD 0
  count : rq.nrRunning = q.length % 2 ^ 32

theorem QueueOk.congr (h : QueueOk mem rq q) (hm : ∀ t ∈ q, nextOf mem' t = nextOf mem t) :
    QueueOk mem' rq q :=
  ⟨h.links.congr hm, h.nodup, h.tail, h.count⟩

theorem QueueOk.head_eq_zero_iff (h : QueueOk mem rq q) : rq.head = 0 ↔ q = [] := by
  cases q with
  | nil => exact iff_of_true h.links rfl
  | cons t q =>
    obtain ⟨ht, h0, -⟩ := h.links
    exact iff_of_false (ht ▸ h0) (List.cons_ne_nil t q)

/-- **Threads that exist**: structures in memory that do not overlap. -/
structure Known (threads : List ℕ) : Prop where
  ne_zero : ∀ t ∈ threads, t ≠ 0
  lt : ∀ t ∈ threads, t + usedSize ≤ 2 ^ 64
  apart : threads.Pairwise Apart

variable {threads : List ℕ}

theorem Known.apart_of_ne (h : Known threads) (ht : t ∈ threads) (hu : u ∈ threads) (hne : t ≠ u) :
    Apart t u :=
  haveI : Std.Symm Apart := ⟨fun _ _ => Apart.symm⟩
  h.apart.forall ht hu hne

theorem nextOf_store {v : ℕ} (hv : v < 2 ^ 64) (mem : ByteMem) (t : ℕ) :
    nextOf (mem.store (nextAt t) 8 v) t = v :=
  ByteMem.load_store_of_lt hv

theorem stateOf_store (mem : ByteMem) (t : ℕ) :
    stateOf (mem.store (t + 4) 4 taskRunning) t = taskRunning :=
  ByteMem.load_store_of_lt (by decide)

section Known

variable (hk : Known threads) (ht : t ∈ threads) (hu : u ∈ threads)
include hk ht hu

theorem Known.same_state (hne : u ≠ t) (mem : ByteMem) (v : ℕ) :
    SameThread mem (mem.store (t + 4) 4 v) u :=
  (hk.apart_of_ne ht hu hne.symm).sameThread_store (by omega) (by simp only [usedSize]; omega)

theorem Known.same_next (hne : u ≠ t) (mem : ByteMem) (v : ℕ) :
    SameThread mem (mem.store (nextAt t) 8 v) u :=
  (hk.apart_of_ne ht hu hne.symm).sameThread_store (by simp only [nextAt]; omega)
    (by simp only [nextAt, usedSize]; omega)

/-- The `next` fields are not states. -/
theorem Known.stateOf_next (mem : ByteMem) (v : ℕ) :
    stateOf (mem.store (nextAt t) 8 v) u = stateOf mem u := by
  by_cases hne : u = t
  · subst hne
    exact ByteMem.load_store_of_disjoint (by simp only [nextAt]; omega)
  · exact (hk.same_next ht hu hne mem v).state

end Known

section Queue

variable (hk : Known threads) (hq : ∀ u ∈ q, u ∈ threads) (h : QueueOk k.mem k.rq q)
include hk hq h

omit hk hq in
theorem QueueOk.nodup_snoc (hnot : t ∉ q) : (q ++ [t]).Nodup := by
  rw [List.nodup_append]
  refine ⟨h.nodup, List.nodup_singleton t, ?_⟩
  intro u hu v hv huv
  rw [List.mem_singleton] at hv
  exact hnot (hv ▸ huv ▸ hu)

omit hk hq in
theorem QueueOk.count_snoc (t : ℕ) :
    (k.rq.nrRunning + 1) % 2 ^ 32 = (q ++ [t]).length % 2 ^ 32 := by
  rw [h.count, List.length_append, List.length_singleton]
  omega

/-- **`enqueue` puts a thread at the end.** -/
theorem enqueue_queue (ht : t ∈ threads) (hnot : t ∉ q) :
    QueueOk (enqueue k t).mem (enqueue k t).rq (q ++ [t]) := by
  have ht0 := hk.ne_zero t ht
  have htlt : t < 2 ^ 64 := by
    have := hk.lt t ht
    simp only [usedSize] at this
    omega
  have hnodup := h.nodup_snoc hnot
  have hcount := h.count_snoc t
  unfold enqueue
  rcases List.eq_nil_or_concat' q with rfl | ⟨front, last, rfl⟩
  · -- the first thread of an empty queue
    rw [if_pos (h.head_eq_zero_iff.2 rfl)]
    exact ⟨⟨rfl, ht0, nextOf_store (by decide) _ t⟩, hnodup, rfl, hcount⟩
  · have hlast : last ∈ threads := hq last (by simp)
    have hne : last ≠ t := fun hc => hnot (by simp [hc])
    have hhead : k.rq.head ≠ 0 := fun hc => by simpa using h.head_eq_zero_iff.1 hc
    have htail : k.rq.tail = last := by rw [h.tail]; simp
    rw [if_neg hhead, htail]
    refine ⟨h.links.snoc ?_ ?_ (nextOf_store (by decide) _ t) ht0, hnodup, ?_, hcount⟩
    · -- the threads before the last one are not written to
      intro u hu
      have huth := hq u (by simp [hu])
      have hul : u ≠ last := fun hc =>
        (List.nodup_append.1 h.nodup).2.2 u hu last (List.mem_singleton_self last) hc
      have hut : u ≠ t := fun hc => hnot (by simp [← hc, hu])
      have hsame := ((hk.same_state ht huth hut k.mem taskRunning).trans
        (hk.same_next hlast huth hul _ t)).trans (hk.same_next ht huth hut _ 0)
      exact hsame.next
    · rw [Kernel.setMem_mem, (hk.same_next ht hlast hne _ 0).next]
      exact nextOf_store htlt _ last
    · rw [Kernel.setMem_rq, List.getLastD_concat]

/-- `enqueue` marks the thread runnable and leaves the other states alone. -/
theorem enqueue_state (ht : t ∈ threads) :
    stateOf (enqueue k t).mem t = taskRunning ∧
      ∀ u ∈ threads, u ≠ t → stateOf (enqueue k t).mem u = stateOf k.mem u := by
  have hstate := stateOf_store k.mem t
  unfold enqueue
  rcases List.eq_nil_or_concat' q with rfl | ⟨front, last, rfl⟩
  · rw [if_pos (h.head_eq_zero_iff.2 rfl)]
    simp only [Kernel.setMem_mem]
    refine ⟨?_, fun u hu hne => ?_⟩
    · rw [hk.stateOf_next ht ht, hstate]
    · rw [hk.stateOf_next ht hu, (hk.same_state ht hu hne k.mem taskRunning).state]
  · have hlast : last ∈ threads := hq last (by simp)
    have hhead : k.rq.head ≠ 0 := fun hc => by simpa using h.head_eq_zero_iff.1 hc
    have htail : k.rq.tail = last := by rw [h.tail]; simp
    rw [if_neg hhead, htail]
    simp only [Kernel.setMem_mem]
    refine ⟨?_, fun u hu hne => ?_⟩
    · rw [hk.stateOf_next ht ht, hk.stateOf_next hlast ht, hstate]
    · rw [hk.stateOf_next ht hu, hk.stateOf_next hlast hu,
        (hk.same_state ht hu hne k.mem taskRunning).state]

end Queue

/-- **`dequeue` takes the first thread.** -/
theorem dequeue_queue (hk : Known threads) (hq : ∀ u ∈ t :: q, u ∈ threads)
    (h : QueueOk k.mem k.rq (t :: q)) :
    (dequeue k).1 = t ∧ QueueOk (dequeue k).2.mem (dequeue k).2.rq q ∧
      (∀ u ∈ threads, stateOf (dequeue k).2.mem u = stateOf k.mem u) ∧
      (dequeue k).2.current = k.current := by
  obtain ⟨hhead, h0, hrest⟩ := h.links
  have ht := hq t List.mem_cons_self
  have hnodup := List.nodup_cons.1 h.nodup
  unfold dequeue
  rw [if_neg (hhead ▸ h0)]
  simp only [Kernel.setMem_mem, Kernel.setMem_rq, Kernel.setMem_current, hhead]
  refine ⟨trivial, ⟨?_, hnodup.2, ?_, ?_⟩, fun u hu => hk.stateOf_next ht hu _ _, trivial⟩
  -- the link of the thread that left is cleared, and no other
  · refine hrest.congr fun u hu => ?_
    have hne : u ≠ t := fun hc => hnodup.1 (hc ▸ hu)
    exact (hk.same_next ht (hq u (List.mem_cons_of_mem t hu)) hne _ _).next
  · -- the tail goes with the last thread
    simp only
    cases q with
    | nil =>
      have hz : nextOf k.mem t = 0 := hrest
      rw [if_pos hz]
      rfl
    | cons u q =>
      rw [if_neg (hrest.1 ▸ hrest.2.1), h.tail]
      rfl
  · have hlen := h.count
    rw [List.length_cons] at hlen
    simp only
    omega

/-! ## Scheduling -/

/-- `enqueue` leaves the caches of the heap and the current thread alone. -/
theorem enqueue_frame (k : Kernel) (t : ℕ) : (enqueue k t).current = k.current ∧
    ∃ mem, (enqueue k t).heap = { k.heap with mem := mem } := by
  unfold enqueue
  split
  · exact ⟨rfl, _, rfl⟩
  · exact ⟨rfl, _, rfl⟩

/-- So does putting the current thread back. -/
theorem putBack_frame (k : Kernel) : (putBack k).current = k.current ∧
    ∃ mem, (putBack k).heap = { k.heap with mem := mem } := by
  unfold putBack
  simp only
  split
  · exact enqueue_frame (k.setLock true) k.current
  · exact ⟨rfl, _, rfl⟩

/-- The threads that can run when `schedule` has put the current one back. -/
def runnable (k : Kernel) (q : List ℕ) : List ℕ :=
  if k.current ≠ 0 ∧ stateOf k.mem k.current = taskRunning then q ++ [k.current] else q

section Pick

variable (hk : Known threads) (hq : ∀ u ∈ q, u ∈ threads) (h : QueueOk k.mem k.rq q)
  (hcur : k.current ≠ 0 → k.current ∈ threads) (hnot : k.current ∉ q)
include hk hq h hcur hnot

/-- The current thread goes back on the queue, if it can run. -/
theorem putBack_queue :
    QueueOk (putBack k).mem (putBack k).rq (runnable k q) ∧ (∀ u ∈ runnable k q, u ∈ threads) ∧
      ∀ u ∈ threads, stateOf (putBack k).mem u = stateOf k.mem u := by
  have hlocked : QueueOk (k.setLock true).mem (k.setLock true).rq q :=
    ⟨h.links, h.nodup, h.tail, h.count⟩
  by_cases hc : k.current ≠ 0 ∧ stateOf k.mem k.current = taskRunning
  · have hmem := hcur hc.1
    have hstate := enqueue_state hk hq hlocked hmem
    rw [show putBack k = _ from if_pos hc, runnable, if_pos hc]
    refine ⟨enqueue_queue hk hq hlocked hmem hnot, ?_, ?_⟩
    · intro u hu
      rcases List.mem_append.1 hu with hu | hu
      · exact hq u hu
      · rw [List.mem_singleton.1 hu]
        exact hmem
    · intro u hu
      by_cases hne : u = k.current
      · rw [hne, hstate.1, hc.2]
      · exact hstate.2 u hu hne
  · rw [show putBack k = _ from if_neg hc, runnable, if_neg hc]
    exact ⟨hlocked, hq, fun _ _ => rfl⟩

/-- **What `schedule` picks**: the first thread that can run becomes the
current one and leaves the queue. -/
theorem pickNext_queue :
    (∀ u ∈ threads, stateOf (pickNext k).1.mem u = stateOf k.mem u) ∧
      ((runnable k q = [] ∧ (pickNext k).2 = .idle ∧ (pickNext k).1.current = k.current ∧
          QueueOk (pickNext k).1.mem (pickNext k).1.rq []) ∨
        ∃ next rest, runnable k q = next :: rest ∧ (pickNext k).1.current = next ∧
          QueueOk (pickNext k).1.mem (pickNext k).1.rq rest ∧
          (pickNext k).2 =
            if k.current ≠ 0 ∧ k.current ≠ next then .switch k.current next else .stay) := by
  obtain ⟨hqueue, hmem, hstate⟩ := putBack_queue hk hq h hcur hnot
  have hcurrent := (putBack_frame k).1
  unfold pickNext
  simp only
  generalize putBack k = k' at *
  cases hr : runnable k q with
  | nil =>
    rw [hr] at hqueue
    have hnone : dequeue k' = (0, k') := if_pos (hqueue.head_eq_zero_iff.2 rfl)
    rw [hnone]
    simp only [if_true]
    exact ⟨hstate, Or.inl ⟨trivial, trivial, hcurrent, hqueue.links, hqueue.nodup, hqueue.tail, hqueue.count⟩⟩
  | cons next rest =>
    rw [hr] at hqueue hmem
    obtain ⟨hnext, hrest, hstate', -⟩ := dequeue_queue hk hmem hqueue
    have h0 : next ≠ 0 := hk.ne_zero next (hmem next List.mem_cons_self)
    rw [hnext, if_neg h0]
    have hall : ∀ u ∈ threads, stateOf (dequeue k').2.mem u = stateOf k.mem u := fun u hu =>
      (hstate' u hu).trans (hstate u hu)
    -- it switches only where another thread was running
    by_cases hc : k.current ≠ 0 ∧ k.current ≠ next
    · rw [if_pos hc]
      exact ⟨hall, Or.inr ⟨next, rest, rfl, rfl, hrest, (if_pos hc).symm⟩⟩
    · rw [if_neg hc]
      exact ⟨hall, Or.inr ⟨next, rest, rfl, rfl,
        ⟨hrest.links, hrest.nodup, hrest.tail, hrest.count⟩, (if_neg hc).symm⟩⟩

end Pick

/-- **A switch writes to no `next` and to no state**: it saves registers on
the stack in use, and a stack pointer. -/
theorem switchTo_thread {cpu : Machine} {prev : ℕ} (next : ℕ) (hk : Known threads) (hp : prev ∈ threads)
    (hu : u ∈ threads) (hroom : 48 ≤ (cpu.reg .rsp).toNat)
    (hoff : Off ((cpu.reg .rsp).toNat - 48) 48 u) :
    nextOf (switchTo k cpu prev next).mem u = nextOf k.mem u ∧
      stateOf (switchTo k cpu prev next).mem u = stateOf k.mem u := by
  have hlt := hk.lt prev hp
  simp only [usedSize] at hlt
  have hslot : (UInt64.ofNat (rspAt prev)).toNat = prev + 24 := by
    have hlt' : rspAt prev < 2 ^ 64 := by simp only [rspAt]; omega
    exact UInt64.toNat_ofNat_of_lt' hlt'
  -- the switch writes six registers to the old stack, and `rsp` to the thread
  have hmem : ∀ x, ¬ ((cpu.reg .rsp).toNat - 48 ≤ x ∧ x < (cpu.reg .rsp).toNat) →
      ¬ (prev + 24 ≤ x ∧ x < prev + 24 + 8) → (switchTo k cpu prev next).mem x = k.mem x := by
    intro x h1 h2
    rw [switchTo, callContextSwitch, contextSwitch_mem, savedMem_of_not_mem, passArgs_mem]
    · rw [passArgs_rsp]
      exact hroom
    · rw [passArgs_rsp]
      exact h1
    · rw [passArgs_rdi, hslot]
      exact h2
  have hap : u = prev ∨ Apart prev u := by
    by_cases hne : u = prev
    · exact Or.inl hne
    · exact Or.inr (hk.apart_of_ne hp hu (Ne.symm hne))
  simp only [Apart, Off, usedSize] at hap hoff
  constructor
  · refine ByteMem.load_congr fun x h1 h2 => hmem x ?_ ?_
    · simp only [nextAt] at h1 h2
      omega
    · simp only [nextAt] at h1 h2
      omega
  · exact ByteMem.load_congr fun x h1 h2 => hmem x (by omega) (by omega)

theorem enqueue_tail (k : Kernel) (t : ℕ) : (enqueue k t).rq.tail = t := by
  unfold enqueue
  split <;> rfl

/-- `schedule` writes to memory and leaves the rest of the heap alone. -/
theorem pickNext_heap (k : Kernel) : ∃ mem, (pickNext k).1.heap = { k.heap with mem := mem } := by
  have hdequeue : ∀ k : Kernel, ∃ mem, (dequeue k).2.heap = { k.heap with mem := mem } := by
    intro k
    unfold dequeue
    split
    · exact ⟨_, rfl⟩
    · exact ⟨_, rfl⟩
  obtain ⟨-, m, hm⟩ := putBack_frame k
  obtain ⟨m', hm'⟩ := hdequeue (putBack k)
  rw [hm] at hm'
  refine ⟨m', ?_⟩
  unfold pickNext
  simp only
  split
  · exact hm'
  · split
    · exact hm'
    · exact hm'

end Sched

end Kos
