import Kos.Kmalloc.Model
import Kos.Sched.Switch
import Kos.Strings
import Kos.Vmm.Model
/-!
# Sched — the run queue, as `scheduler.c` computes it

Threads and processes are structures in byte memory, found by their
address, and the run queue links the threads through their own `next`
fields. The queue is that of CPU 0, the only one `process_create` puts
threads on. `sleep` and `yield` call `schedule` and do nothing else.

The allocators are those of `kmalloc.c` and `vmm.c`; what the page
allocator answers is given with the call. Page tables are kept apart
from byte memory, as in the model of `vmm.c`. `min_vruntime`, which
nothing reads, the task state segment and the console are left out.
-/

namespace Kos

namespace Sched

open Asm

/-! ## Structures -/

/-- `sizeof(struct thread)`. -/
abbrev threadSize : ℕ := 64

/-- `sizeof(struct process)`. -/
abbrev processSize : ℕ := 112

/-- `TASK_RUNNING`. -/
abbrev taskRunning : ℕ := 0

/-- `&t->rsp`. -/
abbrev rspAt (t : ℕ) : ℕ := t + 24

/-- `&t->next`. -/
abbrev nextAt (t : ℕ) : ℕ := t + 48

/-- `t->state`. -/
def stateOf (mem : ByteMem) (t : ℕ) : ℕ := mem.load (t + 4) 4

/-- `t->parent`. -/
def parentOf (mem : ByteMem) (t : ℕ) : ℕ := mem.load (t + 40) 8

/-- `t->next`. -/
def nextOf (mem : ByteMem) (t : ℕ) : ℕ := mem.load (nextAt t) 8

/-- `p->cr3`. -/
def cr3Of (mem : ByteMem) (p : ℕ) : ℕ := mem.load (p + 40) 8

/-- `struct runqueue`. -/
structure Runqueue where
  head : ℕ
  tail : ℕ
  nrRunning : ℕ
  locked : Bool
  deriving DecidableEq, Repr

/-- The statics of `scheduler.c`, the CPU's `current_thread`, the heap and
the page tables. -/
structure Kernel where
  heap : Kmalloc.Heap
  tables : Radix.Tables ℕ
  kernelPml4 : ℕ
  rq : Runqueue
  current : ℕ
  nextTid : ℕ
  nextPid : ℕ

/-- Memory. -/
def Kernel.mem (k : Kernel) : ByteMem := k.heap.mem

/-- Replace memory. -/
def Kernel.setMem (k : Kernel) (mem : ByteMem) : Kernel :=
  { k with heap := { k.heap with mem := mem } }

@[simp] theorem Kernel.setMem_mem (k : Kernel) (mem : ByteMem) : (k.setMem mem).mem = mem := rfl

@[simp] theorem Kernel.setMem_rq (k : Kernel) (mem : ByteMem) : (k.setMem mem).rq = k.rq := rfl

@[simp] theorem Kernel.setMem_current (k : Kernel) (mem : ByteMem) :
    (k.setMem mem).current = k.current := rfl

/-- Take or release the lock. -/
def Kernel.setLock (k : Kernel) (locked : Bool) : Kernel :=
  { k with rq := { k.rq with locked := locked } }

/-- `scheduler_init`. -/
def schedulerInit (k : Kernel) : Kernel := { k with rq := ⟨0, 0, 0, false⟩ }

/-! ## The queue -/

/-- `enqueue`. -/
def enqueue (k : Kernel) (t : ℕ) : Kernel :=
  let mem := k.mem.store (t + 4) 4 taskRunning
  let nr := (k.rq.nrRunning + 1) % 2 ^ 32
  if k.rq.head = 0 then
    { k with rq := { k.rq with head := t, tail := t, nrRunning := nr } }.setMem
      (mem.store (nextAt t) 8 0)
  else
    { k with rq := { k.rq with tail := t, nrRunning := nr } }.setMem
      ((mem.store (nextAt k.rq.tail) 8 t).store (nextAt t) 8 0)

/-- `dequeue`; `0` is `NULL`. -/
def dequeue (k : Kernel) : ℕ × Kernel :=
  if k.rq.head = 0 then (0, k)
  else
    let t := k.rq.head
    let head := nextOf k.mem t
    (t, { k with rq := { k.rq with
            head := head
            tail := if head = 0 then 0 else k.rq.tail
            nrRunning := (k.rq.nrRunning + (2 ^ 32 - 1)) % 2 ^ 32 } }.setMem
          (k.mem.store (nextAt t) 8 0))

/-- How `schedule` ends: no thread can run, the thread goes on, or another
one is switched to. -/
inductive Outcome
  | idle
  | stay
  | switch (prev next : ℕ)
  deriving DecidableEq, Repr

/-- The start of `schedule`: it has the lock, and a current thread that can
run is put back on the queue. -/
def putBack (k : Kernel) : Kernel :=
  let prev := k.current
  let k := k.setLock true
  if prev ≠ 0 ∧ stateOf k.mem prev = taskRunning then enqueue k prev else k

/-- `schedule` from where it has the lock to where it calls
`context_switch`, or to its end. -/
def pickNext (k : Kernel) : Kernel × Outcome :=
  let prev := k.current
  let (next, k) := dequeue (putBack k)
  if next = 0 then (k.setLock false, .idle)
  else
    let k := { k with current := next }
    if prev ≠ 0 ∧ prev ≠ next then (k, .switch prev next) else (k.setLock false, .stay)

/-- The call of `context_switch` in `schedule`, on a CPU with the given
registers. -/
def switchTo (k : Kernel) (cpu : Machine) (prev next : ℕ) : Machine :=
  callContextSwitch { cpu with mem := k.mem } (UInt64.ofNat (rspAt prev))
    (word k.mem (UInt64.ofNat (rspAt next)))
    (if parentOf k.mem next ≠ 0 then UInt64.ofNat (cr3Of k.mem (parentOf k.mem next)) else cpu.cr3)

/-- `schedule`, to where it returns or the other thread goes on. A thread
that was suspended here releases the lock then. -/
def schedule (k : Kernel) (cpu : Machine) : Kernel :=
  match pickNext k with
  | (k, .switch prev next) => k.setMem (switchTo k cpu prev next).mem
  | (k, _) => k

/-- `yield`. -/
def yield (k : Kernel) (cpu : Machine) : Kernel := schedule k cpu

/-- `sleep`. -/
def sleep (k : Kernel) (_ms : ℕ) (cpu : Machine) : Kernel := yield k cpu

/-! ## Creating a process -/

/-- What `process_create` is called with, and what the page allocator
answers in its calls, if it is asked. -/
structure CreateArgs where
  name : ℕ
  entry : UInt64
  processPage : ℕ
  spacePage : ℕ
  threadPage : ℕ
  stack : ℕ

/-- The 512 entries of a table, written to its page. -/
def writeTable (mem : ByteMem) (page : ℕ) (row : ℕ → ℕ) : ByteMem :=
  fun x =>
    if page ≤ x ∧ x < page + pageSize then
      UInt8.ofNat (row ((x - page) / 8) / 256 ^ ((x - page) % 8))
    else mem x

/-- The fields of a new process. `vmm_create_address_space` clears the
page it is answered and fills in the kernel's entries before it returns. -/
def fillProcess (mem : ByteMem) (p pid name spacePage : ℕ) (row : ℕ → ℕ) (cr3 : ℕ) : ByteMem :=
  let mem := mem.store p 4 pid
  let mem := strncpy mem (p + 4) name 31
  let mem : ByteMem := Function.update mem (p + 35) 0
  let mem := if spacePage = 0 then mem else writeTable mem spacePage row
  mem.store (p + 40) 8 cr3

/-- The fields of a new thread, its first frame, and its copy in the
process. `pmm_alloc_pages` clears the four pages it answers with. -/
def buildThread (mem : ByteMem) (t p tid stack : ℕ) (entry : UInt64) : ByteMem :=
  let mem := mem.store t 4 tid
  let mem := mem.store (t + 4) 4 taskRunning
  let mem := mem.store (t + 8) 4 128
  let mem := mem.store (t + 40) 8 p
  let mem := if stack = 0 then mem else mem.fill stack (4 * pageSize) 0
  let kernelStack := add64 stack 0x10000
  let mem := mem.store (t + 32) 8 kernelStack
  let mem := mem.store (rspAt t) 8 (sub64 kernelStack 8)
  let frame := initialFrame mem kernelStack entry.toNat
  let mem := frame.2.store (rspAt t) 8 frame.1
  mem.copy (p + 48) t threadSize

/-- `process_create`; `0` is `NULL`. -/
def processCreate (k : Kernel) (a : CreateArgs) : ℕ × Kernel :=
  let r := Kmalloc.kzalloc k.heap processSize a.processPage
  let p := r.ptr
  if p = 0 then (0, { k with heap := r.heap })
  else
    let space := Vmm.vmmCreateAddressSpace ⟨k.tables, [a.spacePage]⟩ k.kernelPml4
    let mem := fillProcess r.heap.mem p k.nextPid a.name a.spacePage (space.2.tables a.spacePage)
      space.1
    let heap := { r.heap with mem := mem }
    let k := { k with
      heap := heap
      tables := space.2.tables
      nextPid := (k.nextPid + 1) % 2 ^ 32 }
    let r := Kmalloc.kzalloc heap threadSize a.threadPage
    let t := r.ptr
    if t = 0 then (0, { k with heap := (Kmalloc.kfree r.heap p).1 })
    else
      let heap := { r.heap with mem := buildThread r.heap.mem t p k.nextTid a.stack a.entry }
      let k := { k with
        heap := heap
        nextTid := (k.nextTid + 1) % 2 ^ 32 }
      (p, enqueue k t)

/-- The calls of a run; a call that may switch comes with the registers it
is made with. -/
inductive Op
  | create (a : CreateArgs)
  | schedule (cpu : Machine)
  | yield (cpu : Machine)
  | sleep (ms : ℕ) (cpu : Machine)

/-! ## A start -/

/-- A kernel that has just started. -/
def bootKernel : Kernel where
  heap := Kmalloc.boot fun _ => 0
  tables := fun _ _ => 0
  kernelPml4 := 0xFFFF800000200000
  rq := ⟨0, 0, 0, false⟩
  current := 0
  nextTid := 1
  nextPid := 1

/-- A call of `process_create` with the pages it is answered. -/
def createWith (processPage threadPage stack : ℕ) : CreateArgs where
  name := 0xFFFF800000100000
  entry := 0xFFFF800000105000
  processPage := processPage
  spacePage := 0xFFFF800000280000
  threadPage := threadPage
  stack := stack

/-- The registers the boot code calls `schedule` with. -/
def bootCpu : Machine where
  reg r := if r = .rsp then 0xFFFF800000090000 else 0
  zf := false
  cr3 := 0
  rip := 0
  mem := fun _ => 0

end Sched

end Kos
