import Kos.Sched.Queue
import Kos.Common.Run
/-!
# Sched — which context runs, and with which lock

`schedule` takes the lock of the run queue before it switches, and the
thread it switches to releases it, because a suspended thread goes on
inside its own call of `schedule`. A thread that has not started goes on
at its entry instead, and nothing releases the lock. And `schedule`
switches only away from a thread: where there is no current thread it
names one and returns to its caller.

A context is what a CPU executes: that of a thread, or, as `0`, that of
the boot code. `context_switch` goes on with the context whose stack
pointer the thread keeps; the switching module says that it is restored.
-/

namespace Kos

namespace Sched

open Asm

variable {k : Kernel}

/-! ## How `schedule` ends -/

/-- **What `schedule` switches to** is the thread at the head of the queue,
if there is one and it is another than the current one. -/
def Switches (k : Kernel) : Prop := k.current ≠ 0 ∧ k.rq.head ≠ 0 ∧ k.current ≠ k.rq.head

instance : Decidable (Switches k) := inferInstanceAs (Decidable (_ ∧ _ ∧ _))

theorem enqueue_rq (k : Kernel) (t : ℕ) : (enqueue k t).rq.locked = k.rq.locked ∧
    (enqueue k t).rq.head = if k.rq.head = 0 then t else k.rq.head := by
  unfold enqueue
  split <;> exact ⟨rfl, rfl⟩

theorem dequeue_rq (k : Kernel) :
    (dequeue k).1 = k.rq.head ∧ (dequeue k).2.rq.locked = k.rq.locked ∧
      (dequeue k).2.current = k.current := by
  unfold dequeue
  split
  · rename_i h
    exact ⟨h.symm, rfl, rfl⟩
  · simp only [Kernel.setMem_rq, Kernel.setMem_current, and_self]

theorem putBack_rq (k : Kernel) : (putBack k).rq.locked = true ∧
    ((putBack k).rq.head = k.rq.head ∨ (k.rq.head = 0 ∧ (putBack k).rq.head = k.current)) := by
  unfold putBack
  simp only
  split
  · obtain ⟨h1, h2⟩ := enqueue_rq (k.setLock true) k.current
    refine ⟨h1, ?_⟩
    by_cases h0 : k.rq.head = 0
    · exact Or.inr ⟨h0, h2.trans (if_pos h0)⟩
    · exact Or.inl (h2.trans (if_neg h0))
  · exact ⟨rfl, Or.inl rfl⟩

/-- **How `schedule` ends**: it switches with the lock held, or it has
released the lock, and has named the first thread that can run. -/
theorem pickNext_cases (k : Kernel) :
    (Switches k ∧ (pickNext k).2 = .switch k.current k.rq.head ∧ (pickNext k).1.rq.locked = true ∧
        (pickNext k).1.current = k.rq.head) ∨
      (¬ Switches k ∧ (∀ prev next, (pickNext k).2 ≠ .switch prev next) ∧
        (pickNext k).1.rq.locked = false ∧
        (pickNext k).1.current = if k.rq.head = 0 then k.current else k.rq.head) := by
  obtain ⟨hlocked, hhead⟩ := putBack_rq k
  have hcur := (putBack_frame k).1
  obtain ⟨hnext, hlocked', hcur'⟩ := dequeue_rq (putBack k)
  rw [hlocked] at hlocked'
  rw [hcur] at hcur'
  unfold pickNext Switches
  simp only [hnext]
  generalize (dequeue (putBack k)).2 = k' at hlocked' hcur' ⊢
  -- the head is what it was, or the current thread was put on an empty queue
  rcases hhead with hhead | ⟨h0, hhead⟩
  · rw [hhead]
    by_cases h0 : k.rq.head = 0
    · rw [if_pos h0]
      exact Or.inr ⟨fun hc => hc.2.1 h0, fun _ _ => Outcome.noConfusion, rfl,
        hcur'.trans (if_pos h0).symm⟩
    · rw [if_neg h0]
      by_cases hc : k.current ≠ 0 ∧ k.current ≠ k.rq.head
      · rw [if_pos hc]
        exact Or.inl ⟨⟨hc.1, h0, hc.2⟩, rfl, hlocked', rfl⟩
      · rw [if_neg hc]
        exact Or.inr ⟨fun hs => hc ⟨hs.1, hs.2.2⟩, fun _ _ => Outcome.noConfusion, rfl,
          (if_neg h0).symm⟩
  · -- the current thread is alone and is taken again
    rw [hhead]
    refine Or.inr ⟨fun hc => hc.2.1 h0, ?_⟩
    have hsame : ¬ (k.current ≠ 0 ∧ k.current ≠ k.current) := fun hc => hc.2 rfl
    rw [if_neg hsame, if_pos h0]
    split
    · exact ⟨fun _ _ => Outcome.noConfusion, rfl, hcur'⟩
    · exact ⟨fun _ _ => Outcome.noConfusion, rfl, rfl⟩

/-! ## A CPU and its contexts -/

/-- A CPU: the kernel, the context it executes, and the context each thread
keeps a stack pointer of, which is `none` for a thread as
`process_create` built it. `spins` is a CPU that waits in `schedule` for
a lock that nothing else can release. -/
structure Cpu where
  kernel : Kernel
  running : ℕ
  kept : ℕ → Option ℕ
  spins : Bool

/-- `process_create`, called by the context that runs. -/
def Cpu.create (c : Cpu) (a : CreateArgs) : Cpu :=
  let r := processCreate c.kernel a
  { c with
    kernel := r.2
    kept := if r.1 = 0 then c.kept else Function.update c.kept r.2.rq.tail none }

/-- `schedule`, called by the context that runs. A switch keeps that context
in the thread that was current, and goes on with what the next thread
keeps: a suspended context returns from `context_switch` in `schedule`
and releases the lock, a thread that has not started is at its entry. -/
def Cpu.schedule (c : Cpu) (m : Machine) : Cpu :=
  if c.kernel.rq.locked then { c with spins := true }
  else
    let k := Sched.schedule c.kernel m
    match (pickNext c.kernel).2 with
    | .switch prev next =>
      let kept := Function.update c.kept prev (some c.running)
      match c.kept next with
      | some context => { c with kernel := k.setLock false, running := context, kept := kept }
      | none => { c with kernel := k, running := next, kept := kept }
    | _ => { c with kernel := k }

/-- **One call.** -/
def Cpu.step (c : Cpu) (op : Op) : Cpu :=
  if c.spins then c
  else
    match op with
    | .create a => c.create a
    | .schedule m => c.schedule m
    | .yield m => c.schedule m
    | .sleep _ m => c.schedule m

/-- The boot code, after `scheduler_init`, with any current thread or none. -/
def Cpu.start (k : Kernel) : Cpu where
  kernel := schedulerInit k
  running := k.current
  kept := fun _ => none
  spins := false

/-! ## What the calls do -/

variable {c : Cpu} {m : Machine} {a : CreateArgs} {op : Op}

/-- `process_create` leaves the lock and the current thread alone. -/
theorem processCreate_frame (k : Kernel) (a : CreateArgs) :
    (processCreate k a).2.rq.locked = k.rq.locked ∧ (processCreate k a).2.current = k.current := by
  unfold processCreate
  simp only
  split
  · exact ⟨rfl, rfl⟩
  · split
    · exact ⟨rfl, rfl⟩
    · exact ⟨(enqueue_rq _ _).1, (enqueue_frame _ _).1⟩

/-- What `schedule` leaves in the queue and as the current thread is what it
picked. -/
theorem schedule_frame (k : Kernel) (m : Machine) :
    (Sched.schedule k m).rq = (pickNext k).1.rq ∧
      (Sched.schedule k m).current = (pickNext k).1.current := by
  unfold Sched.schedule
  split <;> rename_i h <;> rw [h] <;> exact ⟨rfl, rfl⟩

/-- **What a call of `schedule` does** where the lock is free: it returns to
the context that called it, or goes on with what the head of the queue
keeps. -/
theorem Cpu.schedule_cases (hfree : c.kernel.rq.locked = false) (m : Machine) :
    (¬ Switches c.kernel ∧ (c.schedule m).kernel.rq.locked = false ∧
        (c.schedule m).running = c.running ∧ (c.schedule m).kept = c.kept ∧
        (c.schedule m).spins = c.spins ∧
        (c.schedule m).kernel.current =
          if c.kernel.rq.head = 0 then c.kernel.current else c.kernel.rq.head) ∨
      (Switches c.kernel ∧
        (c.schedule m).kernel.rq.locked = (c.kept c.kernel.rq.head).isNone ∧
        (c.schedule m).running = (c.kept c.kernel.rq.head).getD c.kernel.rq.head ∧
        (c.schedule m).kept = Function.update c.kept c.kernel.current (some c.running) ∧
        (c.schedule m).spins = c.spins ∧ (c.schedule m).kernel.current = c.kernel.rq.head) := by
  obtain ⟨hrq, hcur⟩ := schedule_frame c.kernel m
  unfold Cpu.schedule
  rw [hfree, if_neg Bool.false_ne_true]
  simp only
  rcases pickNext_cases c.kernel with ⟨hs, hout, hlocked, hcurrent⟩ | ⟨hs, hout, hlocked, hcurrent⟩
  · rw [hout]
    refine Or.inr ⟨hs, ?_⟩
    simp only
    -- a thread that ran before releases the lock when it comes back
    cases c.kept c.kernel.rq.head with
    | none => exact ⟨by rw [hrq, hlocked]; rfl, rfl, rfl, rfl, hcur.trans hcurrent⟩
    | some context => exact ⟨rfl, rfl, rfl, rfl, hcur.trans hcurrent⟩
  · refine Or.inl ⟨hs, ?_⟩
    cases ho : (pickNext c.kernel).2 with
    | switch prev next => exact absurd ho (hout prev next)
    | idle => exact ⟨by rw [hrq, hlocked], rfl, rfl, rfl, hcur.trans hcurrent⟩
    | stay => exact ⟨by rw [hrq, hlocked], rfl, rfl, rfl, hcur.trans hcurrent⟩

/-- The calls that enter `schedule`. -/
def Op.schedules : Op → Bool
  | .create _ => false
  | .schedule _ => true
  | .yield _ => true
  | .sleep _ _ => true

theorem Cpu.step_spins (h : c.spins = true) (op : Op) : c.step op = c := if_pos h

theorem Cpu.step_create (h : c.spins = false) (a : CreateArgs) : c.step (.create a) = c.create a :=
  if_neg (by rw [h]; exact Bool.false_ne_true)

theorem Cpu.step_schedule (h : c.spins = false) (hop : op.schedules = true) :
    ∃ m, c.step op = c.schedule m := by
  have hstep : c.step op = _ := if_neg (by rw [h]; exact Bool.false_ne_true)
  cases op with
  | create a => cases hop
  | schedule m => exact ⟨m, hstep⟩
  | yield m => exact ⟨m, hstep⟩
  | sleep ms m => exact ⟨m, hstep⟩

theorem Op.create_of_not_schedules (hop : op.schedules = false) : ∃ a, op = .create a := by
  cases op with
  | create a => exact ⟨a, rfl⟩
  | schedule m => cases hop
  | yield m => cases hop
  | sleep ms m => cases hop

/-! ## The lock -/

/-- **No context executes its own code with the lock held**: the lock is
free, or the CPU is inside `schedule`. -/
def LockFree (c : Cpu) : Prop := c.spins = true ∨ c.kernel.rq.locked = false

/-- A call that switches to a thread which has not started. -/
def StartsThread (c : Cpu) (op : Op) : Prop :=
  op.schedules = true ∧ c.spins = false ∧ Switches c.kernel ∧ c.kept c.kernel.rq.head = none

/-- **A call leaves the lock free unless it starts a thread.** -/
theorem LockFree.step (h : LockFree c) (op : Op) : LockFree (c.step op) ↔ ¬ StartsThread c op := by
  cases hspins : c.spins with
  | true =>
    rw [Cpu.step_spins hspins]
    exact iff_of_true h fun hc => absurd (hspins.symm.trans hc.2.1) (by decide)
  | false =>
    have hfree : c.kernel.rq.locked = false := h.resolve_left (by rw [hspins]; decide)
    cases hop : op.schedules with
    | false =>
      -- `process_create` queues its thread without the lock
      obtain ⟨a, rfl⟩ := Op.create_of_not_schedules hop
      rw [Cpu.step_create hspins]
      exact iff_of_true (Or.inr ((processCreate_frame c.kernel a).1.trans hfree))
        fun hc => Bool.false_ne_true hc.1
    | true =>
      obtain ⟨m, hm⟩ := Cpu.step_schedule hspins hop
      rw [hm]
      obtain ⟨hs, hlocked, -⟩ | ⟨hs, hlocked, -, -, hspins', -⟩ := Cpu.schedule_cases hfree m
      · exact iff_of_true (Or.inr hlocked) fun hc => hs hc.2.2.1
      · -- a switch: what the next thread keeps decides
        rw [LockFree, hspins', hspins, hlocked]
        cases hkept : c.kept c.kernel.rq.head with
        | none => exact iff_of_false (by decide) fun hc => hc ⟨hop, hspins, hs, hkept⟩
        | some context =>
          exact iff_of_true (Or.inr rfl) fun hc => Option.some_ne_none context
            (hkept.symm.trans hc.2.2.2)

/-- **The lock is free whenever a context executes its own code, exactly if
no call starts a thread.** This is said of every run of `process_create`
and `schedule` from `scheduler_init`, whatever the allocators answer. -/
theorem lock_free_iff_none_started (k : Kernel) (ops : List Op) :
    (∀ n, LockFree (runFrom Cpu.step (Cpu.start k) (ops.take n))) ↔
      Allowed Cpu.step (fun c op => ¬ StartsThread c op) (Cpu.start k) ops :=
  (allowed_iff_forall_take (P := LockFree) (fun _ op h => h.step op) (Or.inr rfl)).symm

/-- **A thread that starts holds the lock.** The boot code creates two
threads and schedules twice; the second thread then runs its own code,
and waits forever in its first call of `schedule`. -/
theorem started_thread_holds_lock :
    let ops : List Op :=
      [.create (createWith 0xFFFF800000300000 0xFFFF800000310000 0xFFFF800001000000),
        .create (createWith 0 0 0xFFFF800001010000), .schedule bootCpu, .schedule bootCpu]
    let c := runFrom Cpu.step (Cpu.start bootKernel) ops
    c.running = 0xFFFF800000310050 ∧ ¬ LockFree c ∧ (c.step (.schedule bootCpu)).spins = true := by
  intro ops c
  have hrun : c.running = 0xFFFF800000310050 ∧ c.kernel.rq.locked = true ∧ c.spins = false := by
    decide +kernel
  obtain ⟨hrunning, hlocked, hspins⟩ := hrun
  refine ⟨hrunning, ?_, ?_⟩
  · rw [LockFree, hlocked, hspins]
    decide
  · rw [Cpu.step, hspins, if_neg Bool.false_ne_true]
    simp only [Cpu.schedule, hlocked, if_true]

/-! ## The current thread -/

/-- **The current thread is the context that runs**, and what a thread keeps
is its own. -/
structure Named (c : Cpu) : Prop where
  current : c.kernel.current = c.running
  kept : ∀ t context, c.kept t = some context → context = t

/-- A call of `schedule` that finds a thread on the queue and no current
thread. -/
def NamesOnly (c : Cpu) (op : Op) : Prop :=
  op.schedules = true ∧ c.spins = false ∧ c.kernel.rq.locked = false ∧ c.kernel.current = 0 ∧
    c.kernel.rq.head ≠ 0

/-- **A call keeps the current thread the one that runs**, unless it names a
thread where there was none. -/
theorem Named.step (h : Named c) (op : Op) : Named (c.step op) ↔ ¬ NamesOnly c op := by
  cases hspins : c.spins with
  | true =>
    rw [Cpu.step_spins hspins]
    exact iff_of_true h fun hc => absurd (hspins.symm.trans hc.2.1) (by decide)
  | false =>
    cases hop : op.schedules with
    | false =>
      obtain ⟨a, rfl⟩ := Op.create_of_not_schedules hop
      rw [Cpu.step_create hspins]
      refine iff_of_true ⟨(processCreate_frame c.kernel a).2.trans h.current, ?_⟩ fun hc =>
        Bool.false_ne_true hc.1
      intro t context ht
      simp only [Cpu.create] at ht
      split at ht
      · exact h.kept t context ht
      · rw [Function.update_apply] at ht
        split at ht
        · cases ht
        · exact h.kept t context ht
    | true =>
      obtain ⟨m, hm⟩ := Cpu.step_schedule hspins hop
      rw [hm]
      cases hlocked : c.kernel.rq.locked with
      | true =>
        have hwait : c.schedule m = { c with spins := true } := if_pos hlocked
        rw [hwait]
        exact iff_of_true ⟨h.current, h.kept⟩ fun hc => absurd (hlocked.symm.trans hc.2.2.1) (by decide)
      | false =>
        obtain ⟨hs, -, hrunning, hkept, -, hcur⟩ | ⟨hs, -, hrunning, hkept, -, hcur⟩ :=
          Cpu.schedule_cases hlocked m
        · -- the caller goes on, whatever thread is named
          by_cases h0 : c.kernel.rq.head = 0
          · rw [if_pos h0] at hcur
            refine iff_of_true ⟨?_, ?_⟩ fun hc => hc.2.2.2.2 h0
            · rw [hcur, hrunning, h.current]
            · rw [hkept]
              exact h.kept
          · rw [if_neg h0] at hcur
            by_cases hnone : c.kernel.current = 0
            · refine iff_of_false (fun hn => h0 ?_) fun hc => hc ⟨hop, hspins, hlocked, hnone, h0⟩
              rw [← hcur, hn.current, hrunning, ← h.current, hnone]
            · have hsame : c.kernel.current = c.kernel.rq.head := by
                by_contra hne
                exact hs ⟨hnone, h0, hne⟩
              refine iff_of_true ⟨?_, ?_⟩ fun hc => hnone hc.2.2.2.1
              · rw [hcur, hrunning, ← h.current, hsame]
              · rw [hkept]
                exact h.kept
        · refine iff_of_true ⟨?_, ?_⟩ fun hc => hs.1 hc.2.2.2.1
          · rw [hcur, hrunning]
            cases hhead : c.kept c.kernel.rq.head with
            | none => rfl
            | some context => exact (h.kept _ context hhead).symm
          · intro t context ht
            rw [hkept, Function.update_apply] at ht
            split at ht
            · rename_i heq
              rw [← Option.some.inj ht, ← h.current, heq]
            · exact h.kept t context ht

/-- **The current thread is the one that runs, exactly if no call names a
thread where there is none.** This is said of every run of
`process_create` and `schedule` that starts without a current thread.
Nothing else sets the current thread, so every call of `schedule` then
finds the queue empty. -/
theorem current_runs_iff_none_named (k : Kernel) (ops : List Op) :
    (∀ n, Named (runFrom Cpu.step (Cpu.start { k with current := 0 }) (ops.take n))) ↔
      Allowed Cpu.step (fun c op => ¬ NamesOnly c op) (Cpu.start { k with current := 0 }) ops :=
  (allowed_iff_forall_take (P := Named) (fun _ op h => h.step op)
    ⟨rfl, fun _ _ h => absurd h (by simp [Cpu.start])⟩).symm

/-- **A thread that is named and does not run.** After two threads are
created and `schedule` is called, the first thread is current and the
boot code runs. The next call keeps the boot code in that thread, over
the frame it was to start with. -/
theorem named_thread_not_run :
    let ops : List Op :=
      [.create (createWith 0xFFFF800000300000 0xFFFF800000310000 0xFFFF800001000000),
        .create (createWith 0 0 0xFFFF800001010000), .schedule bootCpu]
    let c := runFrom Cpu.step (Cpu.start bootKernel) ops
    c.kernel.current = 0xFFFF800000310010 ∧ c.running = 0 ∧ ¬ Named c ∧
      (c.step (.schedule bootCpu)).kept 0xFFFF800000310010 = some 0 := by
  intro ops c
  have hrun : c.kernel.current = 0xFFFF800000310010 ∧ c.running = 0 ∧
      c.kernel.rq = ⟨0xFFFF800000310050, 0xFFFF800000310050, 1, false⟩ ∧ c.spins = false := by
    decide +kernel
  obtain ⟨hcur, hrunning, hrq, hspins⟩ := hrun
  refine ⟨hcur, hrunning, ?_, ?_⟩
  · rintro ⟨hname, -⟩
    rw [hcur, hrunning] at hname
    exact absurd hname (by decide)
  · obtain ⟨m, hm⟩ := Cpu.step_schedule hspins (by rfl : (Op.schedule bootCpu).schedules = true)
    have hswitch : Switches c.kernel := by
      rw [Switches, hcur, hrq]
      decide
    rw [hm]
    obtain ⟨hs, -⟩ | ⟨-, -, -, hkept, -⟩ := Cpu.schedule_cases (c := c) (by rw [hrq]) m
    · exact absurd hswitch hs
    · rw [hkept, hcur, hrunning, Function.update_self]

end Sched

end Kos
