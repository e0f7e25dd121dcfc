import Kos.Common.Turns
import Kos.Sched.Context
/-!
# Sched — the threads take turns

A call of `schedule` puts the current thread at the end of the queue and
takes the first, so the threads that can run take turns. A thread that
gets its first turn holds the lock, and whoever calls `schedule` next
waits for it: the turns go on exactly as long as no thread that has not
started is switched to.
-/

namespace Kos

namespace Sched

open Asm

variable {c : Cpu} {m : Machine} {threads q : List ℕ} {t t₀ u : ℕ} {k : ℕ}

/-- What a switch pushes is off the threads. -/
structure StackOff (threads : List ℕ) (m : Machine) : Prop where
  room : 48 ≤ (m.reg .rsp).toNat
  off : ∀ u ∈ threads, Off ((m.reg .rsp).toNat - 48) 48 u

/-- **A turn**: a thread is current, the others wait, and all can run. -/
structure AtTurn (threads : List ℕ) (c : Cpu) (t : ℕ) (q : List ℕ) : Prop where
  current : c.kernel.current = t
  queue : QueueOk c.kernel.mem c.kernel.rq q
  known : ∀ u ∈ t :: q, u ∈ threads
  apart : t ∉ q
  runnable : ∀ u ∈ threads, stateOf c.kernel.mem u = taskRunning
  returned : c.spins = false

/-- The lock is no part of the queue. -/
theorem QueueOk.setLock {k : Kernel} (h : QueueOk k.mem k.rq q) (locked : Bool) :
    QueueOk (k.setLock locked).mem (k.setLock locked).rq q :=
  ⟨h.links, h.nodup, h.tail, h.count⟩

/-! ## One call -/

/-- **`schedule` takes the first thread once the current one is back.** -/
theorem schedule_queue (hk : Known threads) (h : AtTurn threads c t q) (hm : StackOff threads m)
    {t' : ℕ} {q' : List ℕ} (hnext : q ++ [t] = t' :: q') :
    (Sched.schedule c.kernel m).current = t' ∧
      QueueOk (Sched.schedule c.kernel m).mem (Sched.schedule c.kernel m).rq q' ∧
      ∀ u ∈ threads, stateOf (Sched.schedule c.kernel m).mem u = taskRunning := by
  have htmem : t ∈ threads := h.known t List.mem_cons_self
  have hqmem : ∀ u ∈ q, u ∈ threads := fun u hu => h.known u (List.mem_cons_of_mem t hu)
  have ht0 : t ≠ 0 := hk.ne_zero t htmem
  have hback : Sched.runnable c.kernel q = t' :: q' := by
    rw [Sched.runnable, if_pos ⟨h.current ▸ ht0, h.current.symm ▸ h.runnable t htmem⟩, h.current,
      hnext]
  obtain ⟨hstate, hpick⟩ := pickNext_queue hk hqmem h.queue (fun _ => h.current.symm ▸ htmem)
    (h.current.symm ▸ h.apart)
  obtain ⟨hnone, -⟩ | ⟨next, rest, hsome, hcur, hqueue, -⟩ := hpick
  · rw [hback] at hnone
    cases hnone
  · obtain ⟨rfl, rfl⟩ := List.cons.inj (hback.symm.trans hsome)
    have hrunning : ∀ u ∈ threads, stateOf (pickNext c.kernel).1.mem u = taskRunning := fun u hu =>
      (hstate u hu).trans (h.runnable u hu)
    have hcases := pickNext_cases c.kernel
    unfold Sched.schedule
    generalize pickNext c.kernel = r at hcur hqueue hrunning hcases ⊢
    obtain ⟨k', out⟩ := r
    cases out with
    | idle => exact ⟨hcur, hqueue, hrunning⟩
    | stay => exact ⟨hcur, hqueue, hrunning⟩
    | switch prev next =>
      -- the switch is away from the current thread, and writes to no link
      obtain ⟨-, hout, -⟩ | ⟨-, hout, -⟩ := hcases
      · obtain ⟨rfl, rfl⟩ := Outcome.switch.inj hout
        have hthread : ∀ u ∈ threads, _ := fun u hu => switchTo_thread (k := k') c.kernel.rq.head hk
          (h.current.symm ▸ htmem) hu hm.room (hm.off u hu)
        refine ⟨hcur, hqueue.congr fun u hu => (hthread u ?_).1, fun u hu => ?_⟩
        · have hu' : u ∈ q ++ [t] := hnext ▸ List.mem_cons_of_mem _ hu
          rcases List.mem_append.1 hu' with hu' | hu'
          · exact hqmem u hu'
          · exact List.mem_singleton.1 hu' ▸ htmem
        · exact (hthread u hu).2.trans (hrunning u hu)
      · exact absurd rfl (hout prev next)

/-- The lock apart, a call leaves the kernel as `schedule` does. -/
theorem Cpu.schedule_kernel (hfree : c.kernel.rq.locked = false) (m : Machine) :
    ∃ locked, (c.schedule m).kernel = (Sched.schedule c.kernel m).setLock locked := by
  unfold Cpu.schedule
  rw [hfree, if_neg Bool.false_ne_true]
  simp only
  split
  · split
    · exact ⟨false, rfl⟩
    · exact ⟨_, rfl⟩
  · exact ⟨_, rfl⟩

/-- It switches where another thread waits. -/
theorem AtTurn.switches_iff (hk : Known threads) (h : AtTurn threads c t q) :
    Switches c.kernel ↔ q ≠ [] := by
  have ht0 : t ≠ 0 := hk.ne_zero t (h.known t List.mem_cons_self)
  have hhead := h.queue.head_eq_zero_iff
  constructor
  · exact fun hs hq => hs.2.1 (hhead.2 hq)
  · intro hq
    refine ⟨h.current ▸ ht0, fun hc => hq (hhead.1 hc), fun hc => ?_⟩
    cases q with
    | nil => exact hq rfl
    | cons u q =>
      have hu : c.kernel.rq.head = u := h.queue.links.1
      rw [h.current, hu] at hc
      exact h.apart (hc ▸ List.mem_cons_self)

/-- **A call passes the turn on** where the lock is free. -/
theorem AtTurn.schedule (hk : Known threads) (h : AtTurn threads c t q)
    (hfree : c.kernel.rq.locked = false) (hm : StackOff threads m) {t' : ℕ} {q' : List ℕ}
    (hnext : q ++ [t] = t' :: q') : AtTurn threads (c.schedule m) t' q' := by
  obtain ⟨hcur, hqueue, hrunning⟩ := schedule_queue hk h hm hnext
  obtain ⟨locked, hkernel⟩ := Cpu.schedule_kernel hfree m
  have hspins : (c.schedule m).spins = c.spins := by
    obtain ⟨-, -, -, -, hs, -⟩ | ⟨-, -, -, -, hs, -⟩ := Cpu.schedule_cases hfree m
    · exact hs
    · exact hs
  have hperm : (t :: q).Perm (t' :: q') := hnext ▸ List.perm_append_singleton t q |>.symm
  have hnodup : (t' :: q').Nodup := hperm.nodup_iff.1 (List.nodup_cons.2 ⟨h.apart, h.queue.nodup⟩)
  refine ⟨?_, ?_, fun u hu => h.known u (hperm.mem_iff.2 hu), (List.nodup_cons.1 hnodup).1, ?_, ?_⟩
  · rw [hkernel]
    exact hcur
  · rw [hkernel]
    exact hqueue.setLock locked
  · rw [hkernel]
    exact hrunning
  · rw [hspins, h.returned]

/-- **Who holds the lock then**: nobody where the thread was alone, and
where it was not, a thread that has not started. -/
theorem AtTurn.schedule_lock (hk : Known threads) (h : AtTurn threads c t q)
    (hfree : c.kernel.rq.locked = false) (m : Machine) :
    (q = [] ∧ (c.schedule m).kernel.rq.locked = false) ∨
      ∃ u rest, q = u :: rest ∧ (c.schedule m).kernel.rq.locked = (c.kept u).isNone ∧
        (c.schedule m).kept = Function.update c.kept t (some c.running) := by
  have hswitches := h.switches_iff hk
  obtain ⟨hs, hlocked, -⟩ | ⟨hs, hlocked, -, hkept, -⟩ := Cpu.schedule_cases hfree m
  · exact Or.inl ⟨not_not.1 (mt hswitches.2 hs), hlocked⟩
  · cases q with
    | nil => exact absurd rfl (hswitches.1 hs)
    | cons u rest =>
      have hu : c.kernel.rq.head = u := h.queue.links.1
      rw [hu] at hlocked
      rw [h.current] at hkept
      exact Or.inr ⟨u, rest, rfl, hlocked, hkept⟩

/-! ## Call after call -/

/-- `k` calls of `schedule`, the `i`-th of them with the registers `ms i`. -/
def Cpu.calls (c : Cpu) (ms : ℕ → Machine) (k : ℕ) : Cpu :=
  runFrom Cpu.step c ((List.range k).map fun i => .schedule (ms i))

theorem Cpu.calls_succ (c : Cpu) (ms : ℕ → Machine) (k : ℕ) :
    c.calls ms (k + 1) = (c.calls ms k).step (.schedule (ms k)) := by
  rw [Cpu.calls, List.range_succ, List.map_append, runFrom_append]
  rfl

/-- **The first `k` threads of the queue have started**, and the lock is
free. -/
def Started (c : Cpu) (q : List ℕ) (k : ℕ) : Prop :=
  c.kernel.rq.locked = false ∧ ∀ u ∈ q.take k, (c.kept u).isSome = true

theorem started_succ_of_cons {fresh : List ℕ} (hdrop : q.drop k = u :: fresh) :
    Started c q (k + 1) ↔ Started c q k ∧ (c.kept u).isSome = true := by
  have htake : q.take (k + 1) = q.take k ++ [u] := by
    rw [List.take_add_one, ← List.head?_drop, hdrop]
    rfl
  simp only [Started, htake, List.mem_append, List.mem_singleton, or_imp, forall_and,
    forall_eq, and_assoc]

theorem started_succ_of_nil (hdrop : q.drop k = []) : Started c q (k + 1) ↔ Started c q k := by
  have hle : q.length ≤ k := List.drop_eq_nil_iff.1 hdrop
  rw [Started, Started, List.take_of_length_le hle, List.take_of_length_le (by omega)]

/-- **Where the turns stand after `k` calls**, the lock being free before
each of them. Those that wait for their first turn are in front, and
keep what they kept; the others have been switched away from. -/
structure InRound (c₀ : Cpu) (t₀ : ℕ) (q₀ : List ℕ) (k : ℕ) (c : Cpu) (t : ℕ) (old : List ℕ) :
    Prop where
  rotated : (t₀ :: q₀).rotate k = t :: (q₀.drop k ++ old)
  turn : AtTurn (t₀ :: q₀) c t (q₀.drop k ++ old)
  fresh : ∀ u ∈ q₀.drop k, c.kept u = c₀.kept u
  old : ∀ u ∈ old, (c.kept u).isSome = true
  lock : c.kernel.rq.locked = false ↔ Started c₀ q₀ k

variable {c₀ : Cpu} {q₀ old : List ℕ}

theorem InRound.start (h : AtTurn (t₀ :: q₀) c₀ t₀ q₀) : InRound c₀ t₀ q₀ 0 c₀ t₀ [] where
  rotated := by rw [List.rotate_zero, List.drop_zero, List.append_nil]
  turn := by rwa [List.drop_zero, List.append_nil]
  fresh := fun _ _ => rfl
  old := fun _ hu => absurd hu List.not_mem_nil
  lock := by simp [Started]

/-- Whoever is switched away from keeps a context. -/
theorem isSome_update {kept : ℕ → Option ℕ} {context : ℕ} (h : ∀ u ∈ old, (kept u).isSome = true) :
    ∀ u ∈ old ++ [t], (Function.update kept t (some context) u).isSome = true := by
  intro u hu
  rw [Function.update_apply]
  split
  · rfl
  · rename_i hne
    rcases List.mem_append.1 hu with hu | hu
    · exact h u hu
    · exact absurd (List.mem_singleton.1 hu) hne

/-- **A call that finds the lock free passes the turn on.** -/
theorem InRound.schedule (hk : Known (t₀ :: q₀)) (h : InRound c₀ t₀ q₀ k c t old)
    (hfree : c.kernel.rq.locked = false) (hm : StackOff (t₀ :: q₀) m) :
    ∃ t' old', InRound c₀ t₀ q₀ (k + 1) (c.schedule m) t' old' := by
  have hstarted := h.lock.1 hfree
  have hrotated := Turns.rotate_succ h.rotated
  have hlock := h.turn.schedule_lock hk hfree m
  cases hdrop : q₀.drop k with
  | cons u fresh =>
    -- the next thread has its first turn
    have hdrop' : q₀.drop (k + 1) = fresh := by
      rw [← List.tail_drop, hdrop, List.tail_cons]
    have hqueue : q₀.drop k ++ old ++ [t] = u :: (q₀.drop (k + 1) ++ (old ++ [t])) := by
      rw [hdrop, hdrop', List.cons_append, List.cons_append, List.append_assoc]
    rw [hdrop] at hlock
    obtain ⟨hnil, -⟩ | ⟨u', rest, hcons, hlocked, hkept⟩ := hlock
    · cases hnil
    · obtain ⟨rfl, rfl⟩ := List.cons.inj hcons
      refine ⟨u, old ++ [t], hrotated.trans hqueue, h.turn.schedule hk hfree hm hqueue, ?_, ?_, ?_⟩
      · intro v hv
        have hv' : v ∈ q₀.drop k := by
          rw [hdrop, ← hdrop']
          exact List.mem_cons_of_mem u hv
        have hne : v ≠ t := fun hc => h.turn.apart (hc ▸ List.mem_append_left old hv')
        rw [hkept, Function.update_of_ne hne, h.fresh v hv']
      · rw [hkept]
        exact isSome_update h.old
      · have hu : c.kept u = c₀.kept u := h.fresh u (hdrop ▸ List.mem_cons_self)
        rw [started_succ_of_cons hdrop, hlocked, hu, and_iff_right hstarted,
          Option.isNone_eq_false_iff]
  | nil =>
    -- all have had a turn: the thread is alone, or the next one has started
    have hdrop' : q₀.drop (k + 1) = [] := by
      rw [← List.tail_drop, hdrop, List.tail_nil]
    have hfresh : ∀ v ∈ q₀.drop (k + 1), (c.schedule m).kept v = c₀.kept v := fun v hv =>
      absurd (hdrop' ▸ hv) List.not_mem_nil
    have hwaiting : q₀.drop k ++ old = old := by rw [hdrop, List.nil_append]
    rw [hwaiting] at hlock hrotated
    obtain ⟨rfl, hlocked⟩ | ⟨u, rest, rfl, hlocked, hkept⟩ := hlock
    · have hqueue : q₀.drop k ++ [] ++ [t] = t :: (q₀.drop (k + 1) ++ []) := by
        rw [hdrop, hdrop']
        rfl
      refine ⟨t, [], ?_, h.turn.schedule hk hfree hm hqueue, hfresh,
        fun v hv => absurd hv List.not_mem_nil, ?_⟩
      · rw [hrotated, hdrop']
        rfl
      · rw [started_succ_of_nil hdrop]
        exact iff_of_true hlocked hstarted
    · have hqueue : q₀.drop k ++ u :: rest ++ [t] = u :: (q₀.drop (k + 1) ++ (rest ++ [t])) := by
        rw [hdrop, hdrop']
        rfl
      refine ⟨u, rest ++ [t], ?_, h.turn.schedule hk hfree hm hqueue, hfresh, ?_, ?_⟩
      · rw [hrotated, hdrop']
        rfl
      · rw [hkept]
        exact isSome_update fun v hv => h.old v (List.mem_cons_of_mem u hv)
      · rw [started_succ_of_nil hdrop, hlocked, Option.isNone_eq_false_iff]
        exact iff_of_true (h.old u List.mem_cons_self) hstarted

/-- **The turns go on for `k` calls**: all but the last of them leave the
lock free. -/
def TurnsGoOn (c : Cpu) (q : List ℕ) (k : ℕ) : Prop := k = 0 ∨ Started c q (k - 1)

theorem Started.mono {j : ℕ} (h : Started c q k) (hj : j ≤ k) : Started c q j :=
  ⟨h.1, fun u hu => h.2 u (List.take_subset_take_left q hj hu)⟩

theorem turnsGoOn_succ : TurnsGoOn c q (k + 1) ↔ Started c q k := by
  rw [TurnsGoOn, Nat.add_sub_cancel, or_iff_right (Nat.succ_ne_zero k)]

theorem TurnsGoOn.of_succ (h : TurnsGoOn c q (k + 1)) : TurnsGoOn c q k :=
  Or.inr ((turnsGoOn_succ.1 h).mono (Nat.sub_le k 1))

/-! ## Whose turn it is -/

/-- **After `k` calls it is the turn of the thread at place `k`**, counted
round the threads, and the others wait in their order. -/
structure Turn (threads : List ℕ) (k : ℕ) (c : Cpu) : Prop where
  returned : c.spins = false
  current : threads[k % threads.length]? = some c.kernel.current
  queue : QueueOk c.kernel.mem c.kernel.rq (threads.rotate k).tail

theorem InRound.turn_rotate (h : InRound c₀ t₀ q₀ k c t old) : Turn (t₀ :: q₀) k c where
  returned := h.turn.returned
  current := by
    rw [h.turn.current]
    exact Turns.getElem?_of_rotate h.rotated
  queue := by
    rw [h.rotated]
    exact h.turn.queue

section Calls

variable {ms : ℕ → Machine} (hk : Known (t₀ :: q₀)) (h : AtTurn (t₀ :: q₀) c₀ t₀ q₀)
  (hms : ∀ i, StackOff (t₀ :: q₀) (ms i))
include hk h hms

/-- **`k` calls pass the turn on `k` times, or the last of them does not
return.** -/
theorem calls_cases (k : ℕ) :
    (TurnsGoOn c₀ q₀ k ∧ ∃ t old, InRound c₀ t₀ q₀ k (c₀.calls ms k) t old) ∨
      (¬ TurnsGoOn c₀ q₀ k ∧ (c₀.calls ms k).spins = true) := by
  induction k with
  | zero => exact Or.inl ⟨Or.inl rfl, t₀, [], InRound.start h⟩
  | succ k ih =>
    rw [Cpu.calls_succ, turnsGoOn_succ]
    generalize c₀.calls ms k = c at ih
    obtain ⟨-, t, old, hround⟩ | ⟨hno, hspins⟩ := ih
    · have hstep : c.step (.schedule (ms k)) = c.schedule (ms k) :=
        if_neg (by rw [hround.turn.returned]; exact Bool.false_ne_true)
      rw [hstep]
      by_cases hfree : c.kernel.rq.locked = false
      · exact Or.inl ⟨hround.lock.1 hfree, hround.schedule hk hfree (hms k)⟩
      · -- the thread that has the turn holds the lock and waits for it
        have hwait : c.schedule (ms k) = { c with spins := true } :=
          if_pos (Bool.not_eq_false _ ▸ hfree)
        rw [hwait]
        exact Or.inr ⟨fun hc => hfree (hround.lock.2 hc), rfl⟩
    · rw [Cpu.step_spins hspins]
      exact Or.inr ⟨fun hc => hno (turnsGoOn_succ.2 hc).of_succ, hspins⟩

theorem turn_calls_iff (k : ℕ) : Turn (t₀ :: q₀) k (c₀.calls ms k) ↔ TurnsGoOn c₀ q₀ k := by
  obtain ⟨hgo, t, old, hround⟩ | ⟨hno, hspins⟩ := calls_cases hk h hms k
  · exact iff_of_true hround.turn_rotate hgo
  · exact iff_of_false (fun hturn => by rw [hturn.returned] at hspins; cases hspins) hno

/-- **The threads take turns**, as long as the lock is free at first and
each thread that gets its first turn, but for the last one, has started
before. They take turns for ever, and each of them has exactly one turn
in any `n + 1` calls, exactly if all of them have started. -/
theorem round_robin_iff :
    (∀ k, Turn (t₀ :: q₀) k (c₀.calls ms k) ↔ TurnsGoOn c₀ q₀ k) ∧
      ((∀ k, Turn (t₀ :: q₀) k (c₀.calls ms k) ∧ ∀ t ∈ t₀ :: q₀,
          ∃! i, k < i ∧ i ≤ k + (q₀.length + 1) ∧ (c₀.calls ms i).kernel.current = t) ↔
        Started c₀ q₀ q₀.length) := by
  have hturn := turn_calls_iff hk h hms
  refine ⟨hturn, fun hall => ?_, fun hstarted => ?_⟩
  · exact turnsGoOn_succ.1 ((hturn (q₀.length + 1)).1 (hall (q₀.length + 1)).1)
  · have hgo : ∀ k, Turn (t₀ :: q₀) k (c₀.calls ms k) := by
      intro k
      refine (hturn k).2 (Or.inr ⟨hstarted.1, fun u hu => hstarted.2 u ?_⟩)
      rw [List.take_length]
      exact List.mem_of_mem_take hu
    have hnodup : (t₀ :: q₀).Nodup := List.nodup_cons.2 ⟨h.apart, h.queue.nodup⟩
    refine fun k => ⟨hgo k, fun t ht => ?_⟩
    have hcurrent : ∀ i, (t₀ :: q₀)[i % (t₀ :: q₀).length]? = some t ↔
        (c₀.calls ms i).kernel.current = t := by
      intro i
      rw [(hgo i).current, Option.some_inj]
    have hunique := Turns.existsUnique_turn hnodup ht k
    simp only [hcurrent] at hunique
    exact hunique

end Calls

/-- A CPU with two threads, the first of them current; both keep a context. -/
def pairOfThreads : Cpu where
  kernel := { bootKernel with rq := ⟨0x2000, 0x2000, 1, false⟩, current := 0x1000 }
  running := 0x1000
  kept := fun t => some t
  spins := false

/-- They take turns, the second of them once in any two calls. -/
theorem round_robin_iff_pair :
    Turn [0x1000, 0x2000] 5 (pairOfThreads.calls (fun _ => bootCpu) 5) ∧
      ∃! i, 3 < i ∧ i ≤ 3 + 2 ∧
        (pairOfThreads.calls (fun _ => bootCpu) i).kernel.current = 0x2000 := by
  have hknown : Known [0x1000, 0x2000] :=
    ⟨by decide, by decide, List.pairwise_pair.2 (Or.inl (by decide))⟩
  have hlast : nextOf pairOfThreads.kernel.mem 0x2000 = 0 := by decide +kernel
  have hturn : AtTurn [0x1000, 0x2000] pairOfThreads 0x1000 [0x2000] :=
    ⟨rfl, ⟨⟨rfl, by decide, hlast⟩, List.nodup_singleton _, rfl, rfl⟩, by simp, by decide,
      by decide +kernel, rfl⟩
  have hoff : StackOff [0x1000, 0x2000] bootCpu := ⟨by decide, by decide⟩
  have hall := (round_robin_iff hknown hturn fun _ => hoff).2.2 ⟨rfl, fun _ _ => rfl⟩
  exact ⟨(hall 5).1, (hall 3).2 0x2000 (by decide)⟩

/-- **A second call that does not return.** The boot code creates two
threads and calls `schedule`, so that the first is current, can run, and
the second waits. Of two more calls the first switches to the second
thread, and the other waits for the lock. -/
theorem second_turn_never_ends :
    let ops : List Op :=
      [.create (createWith 0xFFFF800000300000 0xFFFF800000310000 0xFFFF800001000000),
        .create (createWith 0 0 0xFFFF800001010000), .schedule bootCpu]
    let c := runFrom Cpu.step (Cpu.start bootKernel) ops
    AtTurn [0xFFFF800000310010, 0xFFFF800000310050] c 0xFFFF800000310010 [0xFFFF800000310050] ∧
      ¬ Turn [0xFFFF800000310010, 0xFFFF800000310050] 2 (c.calls (fun _ => bootCpu) 2) := by
  intro ops c
  have hrun : c.kernel.current = 0xFFFF800000310010 ∧
      c.kernel.rq = ⟨0xFFFF800000310050, 0xFFFF800000310050, 1, false⟩ ∧
      nextOf c.kernel.mem 0xFFFF800000310050 = 0 ∧
      stateOf c.kernel.mem 0xFFFF800000310010 = taskRunning ∧
      stateOf c.kernel.mem 0xFFFF800000310050 = taskRunning ∧
      c.kept 0xFFFF800000310050 = none ∧ c.spins = false := by
    decide +kernel
  obtain ⟨hcur, hrq, hlast, hfirst, hsecond, hkept, hspins⟩ := hrun
  have hknown : Known [0xFFFF800000310010, 0xFFFF800000310050] :=
    ⟨by decide, by decide, List.pairwise_pair.2 (Or.inl (by decide))⟩
  have hturn : AtTurn [0xFFFF800000310010, 0xFFFF800000310050] c 0xFFFF800000310010
      [0xFFFF800000310050] := by
    refine ⟨hcur, ?_, by simp, by decide, by simp [hfirst, hsecond], hspins⟩
    rw [hrq]
    exact ⟨⟨rfl, by decide, hlast⟩, List.nodup_singleton _, rfl, rfl⟩
  have hoff : StackOff [0xFFFF800000310010, 0xFFFF800000310050] bootCpu := ⟨by decide, by decide⟩
  refine ⟨hturn, fun hsecond => ?_⟩
  -- the second thread has not started
  have hstarted := turnsGoOn_succ.1 ((turn_calls_iff hknown hturn (fun _ => hoff) 2).1 hsecond)
  have hsome := hstarted.2 0xFFFF800000310050 (by decide)
  rw [hkept] at hsome
  cases hsome

end Sched

end Kos
