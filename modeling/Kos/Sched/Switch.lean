import Kos.Common.Asm
import Kos.Common.Run
import Kos.Common.Word
/-!
# Sched — switching between threads

`context_switch` leaves a thread as a block of seven words on its own
stack, the saved registers and the return address, and the address of
that block in the thread's structure. `process_create` lays the same
block out by hand for a thread that has not run. Whatever the other
threads do on their stacks, the block stays, and the switch back finds
in it what was saved.

Threads are given by their stacks and by where their saved stack pointer
is kept. Between two switches the running thread may do anything but
write to the stacks and the saved stack pointers of the others. One
memory serves all address spaces, since kernel stacks and thread
structures lie in the half they share.
-/

namespace Kos

namespace Sched

open Asm

/-- The registers `context_switch` saves, in the order it pushes them. -/
def savedRegs : List Reg := [.rbx, .rbp, .r12, .r13, .r14, .r15]

/-- `context_switch`; the test of `rdi` jumps to the next instruction. -/
def contextSwitch : List Instr :=
  [.push .rbx, .push .rbp, .push .r12, .push .r13, .push .r14, .push .r15,
    .store .rdi .rsp,
    .test .rdi, .jz 0,
    .mov .rsp .rsi,
    .test .rdx, .jz 1,
    .movCr3 .rdx,
    .pop .r15, .pop .r14, .pop .r13, .pop .r12, .pop .rbp, .pop .rbx,
    .ret]

/-- Pass three arguments. -/
def passArgs (m : Machine) (a b c : UInt64) : Machine :=
  ((m.setReg .rdi a).setReg .rsi b).setReg .rdx c

/-- `context_switch(old_rsp, new_rsp, new_cr3)`, from its first instruction
to where it returns. -/
def callContextSwitch (m : Machine) (oldRsp newRsp newCr3 : UInt64) : Machine :=
  run contextSwitch 0 (passArgs m oldRsp newRsp newCr3)

/-- `*(--sp) = value`. -/
def pushWord (st : ℕ × ByteMem) (value : ℕ) : ℕ × ByteMem :=
  (sub64 st.1 8, st.2.store (sub64 st.1 8) 8 value)

/-- The frame `process_create` builds for a thread, below
`kernel_stack - 8`: the stack pointer it ends with, and memory. -/
def initialFrame (mem : ByteMem) (kernelStack entry : ℕ) : ℕ × ByteMem :=
  [0, entry, 0, 0, 0, 0, 0, 0].foldl pushWord (sub64 kernelStack 8, mem)

/-! ## What is kept of a thread -/

/-- The registers a caller relies on, where it returns to, and the stack
pointer it has then. -/
structure Context where
  rbx : UInt64
  rbp : UInt64
  r12 : UInt64
  r13 : UInt64
  r14 : UInt64
  r15 : UInt64
  rsp : UInt64
  rip : UInt64
  deriving DecidableEq

/-- The context of a thread that calls `context_switch`: the return address
is on top of the stack. -/
def entering (m : Machine) : Context where
  rbx := m.reg .rbx
  rbp := m.reg .rbp
  r12 := m.reg .r12
  r13 := m.reg .r13
  r14 := m.reg .r14
  r15 := m.reg .r15
  rsp := m.reg .rsp + 8
  rip := word m.mem (m.reg .rsp)

/-- The context a machine goes on with. -/
def leaving (m : Machine) : Context where
  rbx := m.reg .rbx
  rbp := m.reg .rbp
  r12 := m.reg .r12
  r13 := m.reg .r13
  r14 := m.reg .r14
  r15 := m.reg .r15
  rsp := m.reg .rsp
  rip := m.rip

/-- The block a context is kept in, from the saved stack pointer on. -/
def Context.frame (c : Context) : List UInt64 :=
  [c.r15, c.r14, c.r13, c.r12, c.rbp, c.rbx, c.rip]

section Args

variable (m : Machine) (a b c : UInt64)

@[simp] theorem passArgs_rsp : (passArgs m a b c).reg .rsp = m.reg .rsp := rfl

@[simp] theorem passArgs_rdi : (passArgs m a b c).reg .rdi = a := rfl

@[simp] theorem passArgs_rsi : (passArgs m a b c).reg .rsi = b := rfl

@[simp] theorem passArgs_mem : (passArgs m a b c).mem = m.mem := rfl

/-- The arguments are in registers that are not kept. -/
@[simp] theorem entering_passArgs : entering (passArgs m a b c) = entering m := rfl

end Args

/-! ## The frame built by hand -/

/-- **Storing words below a stack pointer**: they stand in a block, the last
one first. -/
theorem foldl_pushWord (mem : ByteMem) {sp : ℕ} (vs : List UInt64) (hlt : sp < 2 ^ 64)
    (hroom : 8 * vs.length ≤ sp) :
    ((vs.map UInt64.toNat).foldl pushWord (sp, mem)).1 = sp - 8 * vs.length ∧
      Words ((vs.map UInt64.toNat).foldl pushWord (sp, mem)).2 (sp - 8 * vs.length) vs.reverse ∧
      ∀ x, ¬ (sp - 8 * vs.length ≤ x ∧ x < sp) →
        ((vs.map UInt64.toNat).foldl pushWord (sp, mem)).2 x = mem x := by
  induction vs generalizing sp mem with
  | nil => exact ⟨rfl, trivial, fun _ _ => rfl⟩
  | cons v vs ih =>
    rw [List.length_cons] at hroom
    have hsp : sub64 sp 8 = sp - 8 := sub64_of_le hlt (by omega)
    have hlen : sp - 8 * (v :: vs).length = sp - 8 - 8 * vs.length := by
      rw [List.length_cons]
      omega
    have hlt' : sp - 8 < 2 ^ 64 := by omega
    obtain ⟨hrest, hwords, hmem⟩ := ih (mem.store (sp - 8) 8 v.toNat) hlt' (by omega)
    rw [List.map_cons, List.foldl_cons, pushWord, hsp, hlen]
    refine ⟨hrest, ?_, ?_⟩
    · have htop : sp - 8 - 8 * vs.length + 8 * vs.reverse.length = sp - 8 := by
        rw [List.length_reverse]
        omega
      rw [List.reverse_cons, words_append, htop]
      refine ⟨hwords, ?_, trivial⟩
      refine (ByteMem.load_congr fun x h1 h2 => hmem x (by omega)).trans ?_
      rw [load_store_word]
    · intro x hx
      rw [hmem x (by omega)]
      exact ByteMem.store_of_not_mem (by omega)

/-- The context of a thread that has not started. -/
def startContext (rsp entry : UInt64) : Context := ⟨0, 0, 0, 0, 0, 0, rsp, entry⟩

/-- **The frame `process_create` builds** is that of a context with zeroed
registers and the entry for the return address. -/
theorem initialFrame_spec (mem : ByteMem) {kernelStack : ℕ} (entry rsp : UInt64)
    (hroom : 72 ≤ kernelStack) (hlt : kernelStack < 2 ^ 64) :
    (initialFrame mem kernelStack entry.toNat).1 = kernelStack - 72 ∧
      Words (initialFrame mem kernelStack entry.toNat).2 (kernelStack - 72)
        (startContext rsp entry).frame ∧
      ∀ x, ¬ (kernelStack - 72 ≤ x ∧ x < kernelStack - 8) →
        (initialFrame mem kernelStack entry.toNat).2 x = mem x := by
  have hsp : sub64 kernelStack 8 = kernelStack - 8 := sub64_of_le hlt (by omega)
  have hlen : kernelStack - 8 - 8 * 8 = kernelStack - 72 := by omega
  have hpush := foldl_pushWord mem [0, entry, 0, 0, 0, 0, 0, 0]
    (by omega : kernelStack - 8 < 2 ^ 64) (by simp only [List.length_cons, List.length_nil]; omega)
  simp only [List.length_cons, List.length_nil, Nat.zero_add, Nat.reduceAdd, hlen] at hpush
  obtain ⟨h1, h2, h3⟩ := hpush
  rw [initialFrame, hsp]
  refine ⟨h1, ?_, h3⟩
  -- the word above the block is where the entry would return to
  have hframe : [(0 : UInt64), entry, 0, 0, 0, 0, 0, 0].reverse =
      (startContext rsp entry).frame ++ [0] := rfl
  rw [hframe, words_append] at h2
  exact h2.1

/-! ## The routine -/

variable {m : Machine} {c : Context}

/-- The middle of the routine: the stacks are exchanged. -/
def exchange (m : Machine) : Machine where
  reg := Function.update m.reg .rsp (m.reg .rsi)
  zf := m.reg .rdx == 0
  cr3 := if m.reg .rdx == 0 then m.cr3 else m.reg .rdx
  rip := m.rip
  mem := m.mem.store (m.reg .rdi).toNat 8 (m.reg .rsp).toNat

theorem exchange_mem (m : Machine) :
    (exchange m).mem = m.mem.store (m.reg .rdi).toNat 8 (m.reg .rsp).toNat := rfl

/-- Its instructions. -/
def exchangeCode : List Instr :=
  [.store .rdi .rsp, .test .rdi, .jz 0, .mov .rsp .rsi, .test .rdx, .jz 1, .movCr3 .rdx]

theorem run_exchange (code : List Instr) (m : Machine) :
    run (exchangeCode ++ code) 0 m = run code 0 (exchange m) := by
  simp only [exchangeCode, List.cons_append, List.nil_append, run, exec]
  cases hz : m.reg .rdx == 0 with
  | true => simp [exchange, Machine.setReg, run, exec, hz]
  | false => simp [exchange, Machine.setReg, run, exec, hz]

/-- **`context_switch` saves, exchanges and restores.** -/
theorem run_contextSwitch (m : Machine) :
    run contextSwitch 0 m = (popAll savedRegs.reverse (exchange (pushAll savedRegs m))).ret := by
  have hcode : contextSwitch =
      savedRegs.map .push ++ (exchangeCode ++ (savedRegs.reverse.map .pop ++ [.ret])) := rfl
  rw [hcode, run_push, run_exchange, run_pop]
  rfl

/-- Memory as the routine leaves it. -/
def savedMem (m : Machine) : ByteMem :=
  (pushAll savedRegs m).mem.store ((pushAll savedRegs m).reg .rdi).toNat 8
    ((pushAll savedRegs m).reg .rsp).toNat

theorem contextSwitch_mem (m : Machine) : (run contextSwitch 0 m).mem = savedMem m := by
  rw [run_contextSwitch, Machine.ret_mem, popAll_mem, exchange_mem, savedMem]

section Routine

variable (hroom : 48 ≤ (m.reg .rsp).toNat) (hend : (m.reg .rsp).toNat + 8 < 2 ^ 64)

include hroom in
theorem savedMem_of_not_mem {x : ℕ}
    (hx : ¬ ((m.reg .rsp).toNat - 48 ≤ x ∧ x < (m.reg .rsp).toNat))
    (hx' : ¬ ((m.reg .rdi).toNat ≤ x ∧ x < (m.reg .rdi).toNat + 8)) :
    savedMem m x = m.mem x := by
  have hp : Pushed savedRegs m (pushAll savedRegs m) := pushed (by decide) hroom
  rw [savedMem, hp.reg .rdi (by decide), ByteMem.store_of_not_mem hx', hp.mem x hx]

include hroom hend in
/-- **The block of the thread that leaves.** -/
theorem savedMem_words (hoff : (m.reg .rdi).toNat + 8 ≤ (m.reg .rsp).toNat - 48 ∨
    (m.reg .rsp).toNat + 8 ≤ (m.reg .rdi).toNat) :
    (savedMem m).load (m.reg .rdi).toNat 8 = (m.reg .rsp).toNat - 48 ∧
      Words (savedMem m) ((m.reg .rsp).toNat - 48) (entering m).frame := by
  have hp : Pushed savedRegs m (pushAll savedRegs m) := pushed (by decide) hroom
  have hrdi := hp.reg .rdi (by decide)
  have hrsp : ((pushAll savedRegs m).reg .rsp).toNat = (m.reg .rsp).toNat - 48 := hp.rsp
  have hpushed : Words (pushAll savedRegs m).mem ((m.reg .rsp).toNat - 48)
      (savedRegs.reverse.map m.reg) := hp.words
  -- the return address stands above what is pushed
  have hret : (pushAll savedRegs m).mem.load ((m.reg .rsp).toNat - 48 + 48) 8 =
      (word m.mem (m.reg .rsp)).toNat := by
    have htop : (m.reg .rsp).toNat - 48 + 48 = (m.reg .rsp).toNat := by omega
    rw [htop]
    refine (ByteMem.load_congr fun x h1 h2 => hp.mem x fun hc => by omega).trans ?_
    rw [toNat_word]
  have hframe : (entering m).frame =
      savedRegs.reverse.map m.reg ++ [word m.mem (m.reg .rsp)] := rfl
  refine ⟨?_, ?_⟩
  · rw [savedMem, hrdi, load_store_word, hrsp]
  · rw [hframe]
    refine Words.congr (words_append.2 ⟨hpushed, hret, trivial⟩) fun x h1 h2 => ?_
    rw [savedMem, hrdi]
    simp only [List.length_append, List.length_map, List.length_reverse, savedRegs,
      List.length_cons, List.length_nil] at h2
    exact ByteMem.store_of_not_mem (by omega)

include hroom in
/-- **The routine goes on with the context at the new stack pointer.** -/
theorem leaving_contextSwitch (hlt : (m.reg .rsi).toNat + 56 < 2 ^ 64)
    (hws : Words (savedMem m) (m.reg .rsi).toNat c.frame)
    (hrsp : c.rsp.toNat = (m.reg .rsi).toNat + 56) : leaving (run contextSwitch 0 m) = c := by
  have hp : Pushed savedRegs m (pushAll savedRegs m) := pushed (by decide) hroom
  have hsp : (exchange (pushAll savedRegs m)).reg .rsp = m.reg .rsi := by
    simp only [exchange, Function.update_self]
    exact hp.reg .rsi (by decide)
  have hframe : c.frame = [c.r15, c.r14, c.r13, c.r12, c.rbp, c.rbx] ++ [c.rip] := rfl
  rw [hframe, words_append] at hws
  have hq : Popped savedRegs.reverse [c.r15, c.r14, c.r13, c.r12, c.rbp, c.rbx]
      (exchange (pushAll savedRegs m)) (popAll savedRegs.reverse (exchange (pushAll savedRegs m))) := by
    refine popped (by decide) (by decide) rfl ?_ ?_
    · rw [hsp]
      exact Nat.lt_of_le_of_lt (Nat.add_le_add_left (by decide) _) hlt
    · rw [hsp]
      exact hws.1
  have htop : ((popAll savedRegs.reverse (exchange (pushAll savedRegs m))).reg .rsp).toNat =
      (m.reg .rsi).toNat + 48 := by
    rw [hq.rsp, hsp]
    rfl
  have hregs := hq.regs
  have hmem : (popAll savedRegs.reverse (exchange (pushAll savedRegs m))).mem = savedMem m :=
    popAll_mem _ _
  rw [run_contextSwitch]
  generalize popAll savedRegs.reverse (exchange (pushAll savedRegs m)) = m' at htop hregs hmem ⊢
  simp only [savedRegs, List.reverse_cons, List.reverse_nil, List.nil_append, List.cons_append,
    List.map_cons, List.map_nil, List.cons.injEq, and_true] at hregs
  obtain ⟨h15, h14, h13, h12, hbp, hbx⟩ := hregs
  have hip : word m'.mem (m'.reg .rsp) = c.rip := by
    refine word_of_load ?_
    rw [hmem, htop]
    exact hws.2.1
  have hlast : m'.reg .rsp + 8 = c.rsp := by
    rw [← UInt64.toNat_inj, toNat_add_eight (by omega), htop, hrsp]
  obtain ⟨bx, bp, c12, c13, c14, c15, sp, ip⟩ := c
  simp only at *
  simp [leaving, Machine.ret, Machine.setReg, h15, h14, h13, h12, hbp, hbx, hip, hlast]

end Routine

/-! ## Threads -/

variable {ι : Type*}

/-- **Threads with stacks of their own**: the stack of a thread and the
word that keeps its stack pointer while it does not run. No two of them
overlap. -/
structure Threads (ι : Type*) where
  slot : ι → ℕ
  lo : ι → ℕ
  hi : ι → ℕ
  slot_ne : ∀ i, slot i ≠ 0
  slot_lt : ∀ i, slot i + 8 ≤ 2 ^ 64
  hi_lt : ∀ i, hi i < 2 ^ 64
  stack_apart : ∀ i j, i ≠ j → hi i ≤ lo j ∨ hi j ≤ lo i
  slot_apart : ∀ i j, i ≠ j → slot i + 8 ≤ slot j ∨ slot j + 8 ≤ slot i
  slot_off : ∀ i j, slot i + 8 ≤ lo j ∨ hi j ≤ slot i

/-- What became of a thread that does not run: it has not started, or it
was suspended. -/
inductive Status
  | fresh (entry : UInt64)
  | suspended (c : Context)

/-- A context is kept on the stack of a thread. -/
def Keeps (T : Threads ι) (mem : ByteMem) (i : ι) (c : Context) : Prop :=
  ∃ r, mem.load (T.slot i) 8 = r ∧ T.lo i ≤ r ∧ r + 56 ≤ T.hi i ∧ Words mem r c.frame ∧
    c.rsp.toNat = r + 56

/-- A thread is as `process_create` left it. -/
def Built (T : Threads ι) (mem : ByteMem) (i : ι) (entry : UInt64) : Prop :=
  ∃ mem₀ kernelStack, 72 ≤ kernelStack ∧ kernelStack < 2 ^ 64 ∧
    T.lo i ≤ kernelStack - 72 ∧ kernelStack - 8 ≤ T.hi i ∧
    mem.load (T.slot i) 8 = (initialFrame mem₀ kernelStack entry.toNat).1 ∧
    ∀ x, kernelStack - 72 ≤ x → x < kernelStack - 8 →
      mem x = (initialFrame mem₀ kernelStack entry.toNat).2 x

/-- A thread that does not run is as its status says. -/
def Ready (T : Threads ι) (mem : ByteMem) (i : ι) : Status → Prop
  | .fresh entry => Built T mem i entry
  | .suspended c => Keeps T mem i c

/-- **How a thread goes on**: as it was suspended, or at its entry with its
registers zero. -/
def GoesOn (m : Machine) : Status → Prop
  | .fresh entry => m.rip = entry ∧ ∀ r ∈ savedRegs, m.reg r = 0
  | .suspended c => leaving m = c

/-- **A thread that was built is ready to start.** -/
theorem Built.keeps {T : Threads ι} {mem : ByteMem} {i : ι} {entry : UInt64}
    (h : Built T mem i entry) : ∃ rsp, Keeps T mem i (startContext rsp entry) := by
  obtain ⟨mem₀, ks, hroom, hlt, hlo, hhi, hslot, hmem⟩ := h
  have hks : ks - 16 < 2 ^ 64 := by omega
  have hrsp : (UInt64.ofNat (ks - 16)).toNat = ks - 16 := UInt64.toNat_ofNat_of_lt' hks
  obtain ⟨h1, h2, -⟩ := initialFrame_spec mem₀ entry (UInt64.ofNat (ks - 16)) hroom hlt
  refine ⟨UInt64.ofNat (ks - 16), ks - 72, hslot.trans h1, hlo, by omega, ?_, ?_⟩
  · refine h2.congr fun x hx hx' => hmem x hx ?_
    have hlen : (startContext (UInt64.ofNat (ks - 16)) entry).frame.length = 7 := rfl
    rw [hlen] at hx'
    omega
  · change (UInt64.ofNat (ks - 16)).toNat = _
    omega

/-! ## Runs -/

/-- The machine, the thread that runs, and what became of the others. -/
structure Sys (ι : Type*) where
  machine : Machine
  running : ι
  status : ι → Status

/-- A call of `context_switch`: the registers and memory the running thread
makes it with, the thread it switches to, and the page tables it passes. -/
structure Call (ι : Type*) where
  reg : Reg → UInt64
  mem : ByteMem
  target : ι
  cr3 : UInt64

/-- The machine at the call. -/
def Sys.entry (s : Sys ι) (call : Call ι) : Machine :=
  { s.machine with reg := call.reg, mem := call.mem }

/-- The machine after `context_switch(&running->rsp, target->rsp, cr3)`. -/
def Sys.switch (T : Threads ι) (s : Sys ι) (call : Call ι) : Machine :=
  callContextSwitch (s.entry call) (UInt64.ofNat (T.slot s.running))
    (word call.mem (UInt64.ofNat (T.slot call.target))) call.cr3

/-- **One switch**: the running thread is suspended where it called. -/
def Sys.step [DecidableEq ι] (T : Threads ι) (s : Sys ι) (call : Call ι) : Sys ι where
  machine := s.switch T call
  running := call.target
  status := Function.update s.status s.running (.suspended (entering (s.entry call)))

/-- **What the running thread is held to**: it stays off the stacks and the
saved stack pointers of the others, calls on its own stack with room for
the saved registers, and switches to another thread. -/
structure Permitted (T : Threads ι) (s : Sys ι) (call : Call ι) : Prop where
  other : call.target ≠ s.running
  stack_kept : ∀ j, j ≠ s.running → ∀ x, T.lo j ≤ x → x < T.hi j → call.mem x = s.machine.mem x
  slot_kept : ∀ j, j ≠ s.running → ∀ x, T.slot j ≤ x → x < T.slot j + 8 →
    call.mem x = s.machine.mem x
  room : T.lo s.running + 48 ≤ (call.reg .rsp).toNat
  inside : (call.reg .rsp).toNat + 8 ≤ T.hi s.running

/-- **Every thread that does not run is as its status says.** -/
def Sys.Inv (T : Threads ι) (s : Sys ι) : Prop :=
  ∀ j, j ≠ s.running → Ready T s.machine.mem j (s.status j)

variable {T : Threads ι} {mem mem' : ByteMem} {i : ι}

theorem Keeps.congr {j : ι} (h : Keeps T mem j c)
    (hstack : ∀ x, T.lo j ≤ x → x < T.hi j → mem' x = mem x)
    (hslot : ∀ x, T.slot j ≤ x → x < T.slot j + 8 → mem' x = mem x) : Keeps T mem' j c := by
  obtain ⟨r, hr, hlo, hhi, hws, hrsp⟩ := h
  have hlen : c.frame.length = 7 := rfl
  refine ⟨r, ?_, hlo, hhi, ?_, hrsp⟩
  · rw [← hr]
    exact ByteMem.load_congr hslot
  · refine hws.congr fun x h1 h2 => hstack x (by omega) ?_
    rw [hlen] at h2
    omega

theorem Built.congr {j : ι} {entry : UInt64} (h : Built T mem j entry)
    (hstack : ∀ x, T.lo j ≤ x → x < T.hi j → mem' x = mem x)
    (hslot : ∀ x, T.slot j ≤ x → x < T.slot j + 8 → mem' x = mem x) : Built T mem' j entry := by
  obtain ⟨mem₀, ks, hroom, hlt, hlo, hhi, hr, hmem⟩ := h
  refine ⟨mem₀, ks, hroom, hlt, hlo, hhi, ?_, ?_⟩
  · rw [← hr]
    exact ByteMem.load_congr hslot
  · intro x h1 h2
    rw [hstack x (by omega) (by omega), hmem x h1 h2]

/-- A thread that does not run sees its own stack and its own stack pointer
only. -/
theorem Ready.congr {j : ι} {st : Status} (h : Ready T mem j st)
    (hstack : ∀ x, T.lo j ≤ x → x < T.hi j → mem' x = mem x)
    (hslot : ∀ x, T.slot j ≤ x → x < T.slot j + 8 → mem' x = mem x) : Ready T mem' j st := by
  cases st with
  | fresh entry => exact Built.congr h hstack hslot
  | suspended c => exact Keeps.congr h hstack hslot

/-- A thread that is ready keeps a context to go on with. -/
theorem Ready.keeps {st : Status} (h : Ready T mem i st) :
    ∃ c, Keeps T mem i c ∧ ∀ m, leaving m = c → GoesOn m st := by
  cases st with
  | suspended c => exact ⟨c, h, fun m hm => hm⟩
  | fresh entry =>
    obtain ⟨rsp, hk⟩ := Built.keeps h
    refine ⟨_, hk, fun m hm => ?_⟩
    simp only [leaving, startContext, Context.mk.injEq] at hm
    obtain ⟨hbx, hbp, h12, h13, h14, h15, -, hip⟩ := hm
    refine ⟨hip, fun r hr => ?_⟩
    simp only [savedRegs, List.mem_cons, List.not_mem_nil, or_false] at hr
    rcases hr with rfl | rfl | rfl | rfl | rfl | rfl
    · exact hbx
    · exact hbp
    · exact h12
    · exact h13
    · exact h14
    · exact h15

section Step

theorem toNat_slot (T : Threads ι) (i : ι) : (UInt64.ofNat (T.slot i)).toNat = T.slot i := by
  have hlt : T.slot i < 2 ^ 64 := by
    have := T.slot_lt i
    omega
  exact UInt64.toNat_ofNat_of_lt' hlt

variable {s : Sys ι} {call : Call ι} (hc : Permitted T s call)
include hc

/-- What the switch writes: the block on the stack of the thread that
leaves, and its saved stack pointer. -/
theorem Sys.switch_mem {x : ℕ}
    (hx : ¬ ((call.reg .rsp).toNat - 48 ≤ x ∧ x < (call.reg .rsp).toNat))
    (hx' : ¬ (T.slot s.running ≤ x ∧ x < T.slot s.running + 8)) :
    (s.switch T call).mem x = call.mem x := by
  have hroom : 48 ≤ (call.reg .rsp).toNat := by
    have := hc.room
    omega
  rw [Sys.switch, callContextSwitch, contextSwitch_mem]
  refine savedMem_of_not_mem hroom hx ?_
  rw [← toNat_slot] at hx'
  exact hx'

/-- The switch leaves the other threads alone. -/
theorem Sys.switch_others {j : ι} (hj : j ≠ s.running) {st : Status}
    (h : Ready T s.machine.mem j st) : Ready T (s.switch T call).mem j st := by
  have hroom := hc.room
  have hinside := hc.inside
  have hstack := T.stack_apart j s.running hj
  have hoff := T.slot_off s.running j
  have hoff' := T.slot_off j s.running
  have hslots := T.slot_apart j s.running hj
  refine h.congr (fun x h1 h2 => ?_) fun x h1 h2 => ?_
  · rw [Sys.switch_mem hc (by omega) (by omega), hc.stack_kept j hj x h1 h2]
  · rw [Sys.switch_mem hc (by omega) (by omega), hc.slot_kept j hj x h1 h2]

/-- The thread that leaves is kept where it called. -/
theorem Sys.switch_leaver : Keeps T (s.switch T call).mem s.running (entering (s.entry call)) := by
  have hroom : T.lo s.running + 48 ≤ ((s.entry call).reg .rsp).toNat := hc.room
  have hinside : ((s.entry call).reg .rsp).toNat + 8 ≤ T.hi s.running := hc.inside
  have hlt := T.hi_lt s.running
  have hoff := T.slot_off s.running s.running
  have hslot := toNat_slot T s.running
  obtain ⟨hload, hwords⟩ := savedMem_words (m := passArgs (s.entry call)
    (UInt64.ofNat (T.slot s.running)) (word call.mem (UInt64.ofNat (T.slot call.target))) call.cr3)
    (by rw [passArgs_rsp]; omega) (by rw [passArgs_rsp]; omega)
    (by rw [passArgs_rsp, passArgs_rdi, hslot]; omega)
  rw [passArgs_rdi, passArgs_rsp, hslot] at hload
  rw [passArgs_rsp, entering_passArgs] at hwords
  rw [Sys.switch, callContextSwitch, contextSwitch_mem]
  refine ⟨_, hload, by omega, by omega, hwords, ?_⟩
  have hrsp : (entering (s.entry call)).rsp.toNat = ((s.entry call).reg .rsp).toNat + 8 :=
    toNat_add_eight (by omega)
  omega

/-- **The thread switched to goes on as its status says.** -/
theorem Sys.switch_goesOn (h : s.Inv T) : GoesOn (s.switch T call) (s.status call.target) := by
  have hready := h call.target hc.other
  obtain ⟨c, ⟨r, hr, hlo, hhi, hws, hrsp⟩, hgo⟩ := (Sys.switch_others hc hc.other hready).keeps
  have hlt := T.hi_lt call.target
  have hroom : 48 ≤ ((s.entry call).reg .rsp).toNat := Nat.le_of_add_left_le hc.room
  -- the argument is read before the switch, which leaves it alone
  have hread : call.mem.load (T.slot call.target) 8 = r := by
    have hroom := hc.room
    have hinside := hc.inside
    have hoff := T.slot_off call.target s.running
    have hslots := T.slot_apart call.target s.running hc.other
    rw [← hr]
    exact ByteMem.load_congr fun x h1 h2 => (Sys.switch_mem hc (by omega) (by omega)).symm
  have hnew : (word call.mem (UInt64.ofNat (T.slot call.target))).toNat = r := by
    rw [toNat_word, toNat_slot, hread]
  refine hgo _ ?_
  rw [Sys.switch, callContextSwitch, contextSwitch_mem] at hws
  rw [Sys.switch, callContextSwitch]
  refine leaving_contextSwitch hroom ?_ ?_ ?_
  · rw [passArgs_rsi, hnew]
    omega
  · rw [passArgs_rsi, hnew]
    exact hws
  · rw [passArgs_rsi, hnew]
    exact hrsp

end Step

variable [DecidableEq ι]

/-- **One switch keeps every thread ready.** -/
theorem Sys.Inv.step {s : Sys ι} {call : Call ι} (h : s.Inv T) (hc : Permitted T s call) :
    (s.step T call).Inv T := by
  intro j hj
  by_cases hjr : j = s.running
  · subst hjr
    simp only [Sys.step, Function.update_self]
    exact Sys.switch_leaver hc
  · simp only [Sys.step, Function.update_of_ne hjr]
    exact Sys.switch_others hc hjr (h j hjr)

/-- **Switching resumes what was suspended.** Start with threads that are
each suspended or newly built. After any run of switches, the next one
goes on with the registers, the stack pointer and the return address of
the last suspension of the thread it switches to, or starts that thread
at its entry with its registers zero. -/
theorem context_switch_resumes {s : Sys ι} (h : s.Inv T) {calls : List (Call ι)} {call : Call ι}
    (hrun : Allowed (Sys.step T) (Permitted T) s (calls ++ [call])) :
    GoesOn (runFrom (Sys.step T) s (calls ++ [call])).machine
      ((runFrom (Sys.step T) s calls).status call.target) := by
  obtain ⟨hcalls, hcall, -⟩ := Allowed.append.1 hrun
  have hinv := hcalls.invariant (P := Sys.Inv T) (fun s call => Sys.Inv.step) h
  rw [runFrom_append]
  exact Sys.switch_goesOn hcall hinv

/-- Two threads. -/
def twoThreads : Threads Bool where
  slot i := if i then 0x200 else 0x100
  lo i := if i then 0x3000 else 0x1000
  hi i := if i then 0x4000 else 0x2000
  slot_ne := by decide
  slot_lt := by decide
  hi_lt := by decide
  stack_apart := by decide
  slot_apart := by decide
  slot_off := by decide

/-- The first of two threads runs and the second is newly built, to start
at `0x5000`. -/
def twoStart : Sys Bool where
  machine := ⟨fun _ => 0, false, 0, 0,
    (initialFrame (fun _ => 0) 0x4000 0x5000).2.store 0x200 8
      (initialFrame (fun _ => 0) 0x4000 0x5000).1⟩
  running := false
  status _ := .fresh 0x5000

/-- The first thread calls with its own return address on the stack. -/
def firstCall : Call Bool where
  reg r := if r = .rsp then 0x1800 else if r = .rbx then 11 else if r = .r15 then 15 else 0
  mem := twoStart.machine.mem.store 0x1800 8 0x7000
  target := true
  cr3 := 0

/-- The second thread calls from further down its stack. -/
def secondCall : Call Bool where
  reg r := if r = .rsp then 0x3800 else 0
  mem := (twoStart.step twoThreads firstCall).machine.mem
  target := false
  cr3 := 0

/-- The first thread switches to the second, which starts, and is resumed
by it. -/
theorem context_switch_resumes_two :
    GoesOn (runFrom (Sys.step twoThreads) twoStart [firstCall]).machine (.fresh 0x5000) ∧
      leaving (runFrom (Sys.step twoThreads) twoStart [firstCall, secondCall]).machine =
        ⟨11, 0, 0, 0, 0, 15, 0x1808, 0x7000⟩ := by
  have hinv : twoStart.Inv twoThreads := by
    intro j hj
    cases j with
    | false => exact absurd rfl hj
    | true =>
      refine ⟨fun _ => 0, 0x4000, by decide, by decide, by decide, by decide, by decide +kernel, ?_⟩
      intro x h1 h2
      exact ByteMem.store_of_not_mem (by omega)
  have hfirst : Permitted twoThreads twoStart firstCall := by
    refine ⟨by decide, ?_, ?_, by decide, by decide⟩
    · intro j hj x h1 h2
      cases j with
      | false => exact absurd rfl hj
      | true =>
        refine ByteMem.store_of_not_mem ?_
        simp only [twoThreads, if_true] at h1
        omega
    · intro j hj x h1 h2
      cases j with
      | false => exact absurd rfl hj
      | true =>
        refine ByteMem.store_of_not_mem ?_
        simp only [twoThreads, if_true] at h2
        omega
  have hsecond : Permitted twoThreads (twoStart.step twoThreads firstCall) secondCall :=
    ⟨by decide, fun _ _ _ _ _ => rfl, fun _ _ _ _ _ => rfl, by decide, by decide⟩
  have hone : Allowed (Sys.step twoThreads) (Permitted twoThreads) twoStart ([] ++ [firstCall]) :=
    ⟨hfirst, trivial⟩
  have htwo : Allowed (Sys.step twoThreads) (Permitted twoThreads) twoStart
      ([firstCall] ++ [secondCall]) := ⟨hfirst, hsecond, trivial⟩
  refine ⟨?_, ?_⟩
  · exact context_switch_resumes hinv hone
  · have hresumed := context_switch_resumes hinv htwo
    refine Eq.trans hresumed ?_
    decide +kernel

end Sched

end Kos
