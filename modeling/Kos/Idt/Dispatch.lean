import Kos.Idt.Gates
import Kos.Idt.Restore
/-!
# Idt — from the interrupt to C and back

The processor looks the vector up, aligns the stack, pushes what it needs
to return, for some vectors an error code, and goes on at the address in
the gate. What stands there is a stub, and what the stub and the common
handler push completes what C is shown. On the way back `iretq` takes
off what the processor pushed. For two vectors the processor pushes an
error code that the stub does not expect.
-/

namespace Kos

namespace Idt

open Stack

/-! ## The processor -/

/-- A program that can be interrupted. -/
structure Program where
  machine : Machine
  rip : BitVec 64
  cs : BitVec 64
  rflags : BitVec 64
  ss : BitVec 64

/-- What is pushed of it, the last word first. -/
def Program.frame (p : Program) : List (BitVec 64) :=
  [p.rip, p.cs, p.rflags, p.machine.cpu.rsp, p.ss]

/-- The vectors for which the processor pushes an error code. -/
def processorErrorVectors : List ℕ := [8, 10, 11, 12, 13, 14, 17, 21, 29, 30]

/-- The error code, where there is one. -/
def errorPushed (v : ℕ) (err : BitVec 64) : List (BitVec 64) :=
  if v ∈ processorErrorVectors then [err] else []

/-- A stack pointer rounded down to 16 bytes. -/
def aligned (stack : BitVec 64) : BitVec 64 := BitVec.ofNat 64 (16 * (stack.toNat / 16))

/-- An interrupt is delivered on a stack: that of the program, or another
one for a program outside of the kernel. -/
def deliver (p : Program) (stack : BitVec 64) (v : ℕ) (err : BitVec 64) : Machine :=
  { p.machine with
    cpu := { p.machine.cpu with rsp := aligned stack }.pushes (errorPushed v err ++ p.frame) }

/-- `iretq`. -/
def iretq (m : Machine) : Program :=
  let word (i : ℕ) := load m.cpu.mem (m.cpu.rsp + BitVec.ofNat 64 (8 * i))
  { machine := { m with cpu := { m.cpu with rsp := word 3 } }
    rip := word 0
    cs := word 1
    rflags := word 2
    ss := word 4 }

/-- An interrupt, its handling and the return from it. `codeAt` is the
code at an address. -/
def interrupt (handler : Machine → Machine) (ret : BitVec 64) (codeAt : ℕ → Option Path)
    (table : ByteMem) (p : Program) (stack : BitVec 64) (v : ℕ) (err : BitVec 64) :
    Option Program :=
  (lookup idtLimit table v).bind fun gate =>
    if gate.present then
      (codeAt gate.offset).map fun q => iretq (run handler ret q.code 0 (deliver p stack v err))
    else none

/-! ## The call of C -/

/-- The words a stub pushes, the last one first. -/
def stubWords (v : ℕ) : List (BitVec 64) :=
  if v ∈ errorVectors then [BitVec.ofNat 64 v] else [BitVec.ofNat 64 v, 0]

/-- The vector of a stub, and what its common handler does after the call. -/
def Path.vector : Path → ℕ
  | .isr v => v.val
  | .irq n => 32 + n.val
  | .syscall => 0x80

def Path.eoi : Path → List Instr
  | .irq _ => sendEoi
  | .isr _ | .syscall => []

/-- **The machine C is called on**, from the stub to `mov rdi, rsp`. -/
def Path.atCall (q : Path) (m : Machine) : Machine :=
  let m := { m with cpu := pushAll saveOrder (m.cpu.pushes (stubWords q.vector)) }
  m.setReg .rdi m.cpu.rsp

/-- What the processor is like then. -/
theorem Path.atCall_cpu (q : Path) (m : Machine) :
    (q.atCall m).cpu.rsp = (pushAll saveOrder (m.cpu.pushes (stubWords q.vector))).rsp ∧
      (q.atCall m).cpu.mem = (pushAll saveOrder (m.cpu.pushes (stubWords q.vector))).mem ∧
      (q.atCall m).cpu.reg .rdi = (q.atCall m).cpu.rsp := by
  simp only [Path.atCall, Machine.setReg, Function.update_self, and_self]

/-- **A vector whose error code its stub does not expect.** -/
def Slipped (v : ℕ) : Prop := v ∈ processorErrorVectors ∧ v ∉ errorVectors

instance Slipped.decidable (v : ℕ) : Decidable (Slipped v) := inferInstanceAs (Decidable (_ ∧ _))

/-- What stands in the place of the error code. -/
def errorShown (v : ℕ) (err : BitVec 64) : BitVec 64 :=
  if v ∈ errorVectors then err else 0

/-- What `iretq` finds before the frame. -/
def leftOver (v : ℕ) (err : BitVec 64) : List (BitVec 64) := if Slipped v then [err] else []

variable {handler : Machine → Machine} {ret base : BitVec 64} {m : Machine} {p : Program} {q : Path}
  {rest : List (BitVec 64)} {v : ℕ} {err stack w e : BitVec 64}

/-- **What is on the stack at the stub.** -/
theorem holds_deliver (p : Program) (stack : BitVec 64) (v : ℕ) (err : BitVec 64) :
    Holds (aligned stack) (deliver p stack v err).cpu (errorPushed v err ++ p.frame) := by
  have hfew : (errorPushed v err ++ p.frame).length ≤ 6 := by
    rw [List.length_append, errorPushed]
    split
    · exact le_rfl
    · exact Nat.le_succ 5
  have hpushed : Holds (aligned stack) (deliver p stack v err).cpu
      ((errorPushed v err ++ p.frame) ++ []) :=
    (Holds.empty { p.machine.cpu with rsp := aligned stack }).pushes
      (by rw [List.length_nil]; omega)
  rwa [List.append_nil] at hpushed

/-- The stub completes the words. -/
theorem stubWords_append (v : ℕ) (err : BitVec 64) (frame : List (BitVec 64)) :
    stubWords v ++ (errorPushed v err ++ frame) =
      [BitVec.ofNat 64 v, errorShown v err] ++ (leftOver v err ++ frame) := by
  by_cases hv : v ∈ errorVectors
  · have hsub : ∀ v ∈ errorVectors, v ∈ processorErrorVectors := by decide
    rw [stubWords, if_pos hv, errorPushed, if_pos (hsub v hv), errorShown, if_pos hv, leftOver,
      if_neg fun hs : Slipped v => hs.2 hv]
    rfl
  · rw [stubWords, if_neg hv, errorShown, if_neg hv, leftOver, errorPushed]
    by_cases hp : v ∈ processorErrorVectors
    · rw [if_pos hp, if_pos (show Slipped v from ⟨hp, hv⟩)]
    · rw [if_neg hp, if_neg fun hs : Slipped v => hp hs.1]

/-- **A path runs up to the call of C**, and goes on behind it. -/
theorem run_code (hq : q ≠ .syscall) (m : Machine) :
    run handler ret q.code 0 m =
      run handler ret (q.eoi ++ (restoreOrder.map .pop ++ [.addRsp 16])) 0
        (exec handler ret (q.atCall m) .call) := by
  have hcommon : ∀ after m, run handler ret (common after) 0 m =
      run handler ret (after ++ (restoreOrder.map .pop ++ [.addRsp 16])) 0
        (called handler ret { m with cpu := pushAll saveOrder m.cpu }) := by
    intro after m
    rw [common, run_push, run_call]
  cases q with
  | syscall => exact absurd rfl hq
  | irq n =>
    rw [Path.code, irq, List.cons_append, List.singleton_append, run_pushImm, run_pushImm,
      irqCommon, hcommon]
    have hno : 32 + n.val ∉ errorVectors := by
      revert n
      decide
    rw [Path.atCall, Path.vector, stubWords, if_neg hno]
    rfl
  | isr v =>
    by_cases hv : v.val ∈ errorVectors
    · rw [Path.code, if_pos hv, isrErr, List.singleton_append, run_pushImm, isrCommon, hcommon,
        Path.atCall, Path.vector, stubWords, if_pos hv]
      rfl
    · rw [Path.code, if_neg hv, isrNoerr, List.cons_append, List.singleton_append, run_pushImm,
        run_pushImm, isrCommon, hcommon, Path.atCall, Path.vector, stubWords, if_neg hv]
      rfl

/-- **What C is shown**: the registers as they were, the vector and the
word in the place of the error code, in the order of the structure it is
given the address of. -/
theorem holds_atCall (h : Holds base m.cpu (errorPushed v err ++ rest)) (hvector : q.vector = v)
    (hrest : rest.length ≤ 5) :
    Holds base (q.atCall m).cpu
        (restoreOrder.map m.cpu.reg ++
          ([BitVec.ofNat 64 v, errorShown v err] ++ (leftOver v err ++ rest))) ∧
      (q.atCall m).cpu.reg .rdi = (q.atCall m).cpu.rsp := by
  have hlen : (stubWords v).length ≤ 2 ∧ (errorPushed v err).length ≤ 1 := by
    constructor
    · rw [stubWords]
      split
      · exact Nat.le_succ 1
      · exact le_rfl
    · rw [errorPushed]
      split
      · exact le_rfl
      · exact Nat.zero_le 1
  have hstub : Holds base (m.cpu.pushes (stubWords v))
      (stubWords v ++ (errorPushed v err ++ rest)) := h.pushes (by
    rw [List.length_append]
    omega)
  have hsaved := (hstub.pushAll saveOrder (by
    rw [List.length_append, List.length_append, show saveOrder.length = 15 from rfl]
    omega)).1
  have hreverse : (saveOrder.map m.cpu.reg).reverse = restoreOrder.map m.cpu.reg := rfl
  rw [Cpu.pushes_reg, stubWords_append, hreverse] at hsaved
  subst hvector
  obtain ⟨hrsp, hmem, hrdi⟩ := q.atCall_cpu m
  exact ⟨hsaved.congr hrsp fun k _ => by rw [hmem], hrdi⟩

/-- **What `iretq` finds**: the call keeps the words, the pops take the
registers off and the last addition the vector and the word behind it. -/
theorem returns (ret : BitVec 64) (hsysv : ∀ m, SysV 23 m (handler m)) (hq : q ≠ .syscall)
    (h : Holds base (q.atCall m).cpu (restoreOrder.map m.cpu.reg ++ ([w, e] ++ rest)))
    (hrest : rest.length ≤ 6) :
    Holds base (run handler ret q.code 0 m).cpu rest ∧
      ∀ r, (run handler ret q.code 0 m).cpu.reg r = m.cpu.reg r := by
  set words := restoreOrder.map m.cpu.reg ++ ([w, e] ++ rest) with hwords
  have hlen : words.length = 17 + rest.length := by
    rw [hwords, List.length_append, List.length_append]
    change 15 + (2 + rest.length) = _
    omega
  -- the call, the end of the interrupt, the pops
  set before : Machine := { q.atCall m with cpu := (q.atCall m).cpu.push ret } with hbefore
  have hreturn := hsysv before
  have hpushed : Holds base before.cpu ([ret] ++ words) := h.push (by omega) ret
  have hcalled : Holds base (exec handler ret (q.atCall m) .call).cpu words :=
    (hpushed.drop 8 rfl).congr hreturn.rsp fun k hk => hreturn.frame k (by omega)
  obtain ⟨m', hrun, hrsp, hmem⟩ : ∃ m', run handler ret (q.eoi ++ (restoreOrder.map .pop ++
      [.addRsp 16])) 0 (exec handler ret (q.atCall m) .call) =
        run handler ret (restoreOrder.map .pop ++ [.addRsp 16]) 0 m' ∧
      m'.cpu.rsp = (exec handler ret (q.atCall m) .call).cpu.rsp ∧
      m'.cpu.mem = (exec handler ret (q.atCall m) .call).cpu.mem := by
    cases q with
    | irq n => exact run_sendEoi _ _
    | isr v => exact ⟨_, rfl, rfl, rfl⟩
    | syscall => exact absurd rfl hq
  have hkept : Holds base m'.cpu words := hcalled.congr hrsp fun k _ => by rw [hmem]
  obtain ⟨hleft, hregs, -, -⟩ := hkept.popAll restoreOrder rfl restoreOrder_nodup
  rw [run_code hq, hrun, run_pop]
  exact ⟨hleft.drop 16 rfl, fun r => List.map_inj_left.1 hregs r (mem_restoreOrder r)⟩

/-- The stack is aligned where it holds an even number of words. -/
theorem rsp_aligned_iff {c : Cpu Gpr} {ws : List (BitVec 64)} (h : Holds (aligned stack) c ws) :
    c.rsp.toNat % 16 = 0 ↔ ws.length % 2 = 0 := by
  have hfits := h.fits
  have hbase := congrArg BitVec.toNat h.base
  rw [BitVec.toNat_add, BitVec.toNat_ofNat, aligned, BitVec.toNat_ofNat] at hbase
  omega

/-! ## There and back -/

/-- **What C is shown of an interrupt**: it is given the address of the
registers, the vector, the error code and the frame, on a stack that is
aligned as the calling convention asks. -/
structure Shown (p : Program) (stack : BitVec 64) (v : ℕ) (err : BitVec 64) (m : Machine) :
    Prop where
  rdi : m.cpu.reg .rdi = m.cpu.rsp
  words : Holds (aligned stack) m.cpu (restoreOrder.map p.machine.cpu.reg ++
    ([BitVec.ofNat 64 v, errorShown v err] ++ (leftOver v err ++ p.frame)))
  aligned : m.cpu.rsp.toNat % 16 = 0 ↔ ¬ Slipped v

/-- **The program goes on as if nothing had been.** -/
structure Resumed (p back : Program) : Prop where
  rip : back.rip = p.rip
  cs : back.cs = p.cs
  rflags : back.rflags = p.rflags
  rsp : back.machine.cpu.rsp = p.machine.cpu.rsp
  ss : back.ss = p.ss
  regs : ∀ r, back.machine.cpu.reg r = p.machine.cpu.reg r

theorem path_vector {n : ℕ} (hq : path n = some q) : q.vector = n ∧ q ≠ .syscall := by
  unfold path at hq
  split at hq
  · obtain rfl := Option.some.inj hq
    exact ⟨rfl, Path.noConfusion⟩
  · split at hq
    · obtain rfl := Option.some.inj hq
      refine ⟨?_, Path.noConfusion⟩
      change 32 + (n - 32) = n
      omega
    · cases hq

theorem shown_atCall (p : Program) (stack err : BitVec 64) (hvector : q.vector = v) :
    Shown p stack v err (q.atCall (deliver p stack v err)) := by
  have hregs : (deliver p stack v err).cpu.reg = p.machine.cpu.reg := Cpu.pushes_reg ..
  obtain ⟨hwords, hrdi⟩ := holds_atCall (holds_deliver p stack v err) hvector le_rfl
  rw [hregs] at hwords
  refine ⟨hrdi, hwords, (rsp_aligned_iff hwords).trans ?_⟩
  rw [List.length_append, List.length_append, List.length_append, leftOver]
  by_cases hs : Slipped v
  · rw [if_pos hs]
    exact iff_of_false (fun h : 23 % 2 = 0 => absurd h (by decide)) fun h => h hs
  · rw [if_neg hs]
    exact iff_of_true (show 22 % 2 = 0 from rfl) hs

/-- **What `iretq` takes up** is the frame, if nothing is before it. -/
theorem resumed_iretq (ret : BitVec 64) (hq : path v = some q)
    (hsysv : ∀ m, SysV 23 m (handler m)) (p : Program) (stack err : BitVec 64) :
    let back := iretq (run handler ret q.code 0 (deliver p stack v err))
    (¬ Slipped v → Resumed p back) ∧ (Slipped v → back.rip = err) := by
  intro back
  obtain ⟨hvector, hne⟩ := path_vector hq
  have hregs : (deliver p stack v err).cpu.reg = p.machine.cpu.reg := Cpu.pushes_reg ..
  have hcall := (shown_atCall p stack err hvector).words
  rw [← hregs] at hcall
  have hlen : (leftOver v err ++ p.frame).length ≤ 6 := by
    rw [List.length_append, leftOver]
    split
    · exact le_rfl
    · exact Nat.le_succ 5
  obtain ⟨hframe, hback⟩ := returns ret hsysv hne hcall hlen
  rw [hregs] at hback
  constructor
  · intro hs
    rw [leftOver, if_neg hs, List.nil_append] at hframe
    exact ⟨hframe.words.load rfl, hframe.words.load rfl, hframe.words.load rfl,
      hframe.words.load rfl, hframe.words.load rfl, hback⟩
  · intro hs
    rw [leftOver, if_pos hs] at hframe
    exact hframe.words.load rfl

/-- **Which vectors slip.** -/
theorem slipped_iff : Slipped v ↔ v = 21 ∨ v = 30 := by
  simp only [Slipped, processorErrorVectors, errorVectors, List.mem_cons, List.not_mem_nil,
    or_false]
  omega

/-- **From a vector through the table to C, and back.** After `idt_init`
an interrupt or exception with a vector below 48 reaches C with its own
vector, the registers of the program and the error code the processor
pushed, or zero if there is none; and when C returns, the program goes on
with every register as it was. The exceptions 21 and 30 are apart: their
stubs push a second error code, the stack C is called on is not aligned,
and `iretq` returns to the error code. From 48 on no vector is present. -/
theorem interrupt_dispatched {stub : Path → UInt64} {codeAt : ℕ → Option Path} (ret : BitVec 64)
    (hstub : ∀ q, codeAt (stub q).toNat = some q) (hsysv : ∀ m, SysV 23 m (handler m))
    (idt : ByteMem) (p : Program) (stack err : BitVec 64) (v : UInt8) :
    let m := deliver p stack v.toNat err
    let taken := interrupt handler ret codeAt (idtInit stub idt) p stack v.toNat err
    (path v.toNat = none → taken = none) ∧
      ∀ q, path v.toNat = some q →
        run handler ret q.code 0 m =
          run handler ret (q.eoi ++ (restoreOrder.map .pop ++ [.addRsp 16])) 0
            (exec handler ret (q.atCall m) .call) ∧
        Shown p stack v.toNat err (q.atCall m) ∧
        ∃ back, taken = some back ∧ (¬ (v.toNat = 21 ∨ v.toNat = 30) → Resumed p back) ∧
          (v.toNat = 21 ∨ v.toNat = 30 → back.rip = err) := by
  intro m taken
  have hlookup : lookup idtLimit (idtInit stub idt) v.toNat =
      some (((path v.toNat).map fun q => handlerGate (stub q) gateType).getD noGate) :=
    (gates_found stub idt []).1 v
  refine ⟨fun hnone => ?_, fun q hq => ?_⟩
  · rw [hnone] at hlookup
    simp only [taken, interrupt, hlookup, Option.bind_some]
    rfl
  · obtain ⟨hvector, hne⟩ := path_vector hq
    obtain ⟨hgood, hbad⟩ := resumed_iretq ret hq hsysv p stack err
    rw [hq] at hlookup
    have htaken : taken = some (iretq (run handler ret q.code 0 m)) := by
      have hpresent : (handlerGate (stub q) gateType).present = true := rfl
      have hcode : codeAt (handlerGate (stub q) gateType).offset = some q := hstub q
      simp only [taken, interrupt, hlookup, Option.map_some, Option.getD_some, Option.bind_some,
        hpresent, if_true, hcode]
      rfl
    exact ⟨run_code hne m, shown_atCall p stack err hvector, _, htaken,
      fun h => hgood fun hs => h (slipped_iff.1 hs), fun h => hbad (slipped_iff.2 h)⟩

/-- Stubs 16 bytes apart, and the code found at their addresses. -/
def stubsAt : Path → UInt64
  | .isr v => 0x1000 + 16 * UInt64.ofNat v.val
  | .irq n => 0x2000 + 16 * UInt64.ofNat n.val
  | .syscall => 0x3000

def codeAtStubs (a : ℕ) : Option Path :=
  ((List.finRange 32).map Path.isr ++ ((List.finRange 16).map Path.irq ++ [Path.syscall])).find?
    fun q => (stubsAt q).toNat = a

/-- A page fault on a stack that is not aligned. -/
theorem interrupt_dispatched_fault :
    let p : Program := ⟨program, 0x4000, 8, 0x202, 16⟩
    ∃ back, interrupt scratch 0x1000 codeAtStubs (idtInit stubsAt fun _ => 0xFF) p 0x8FFC 14 2 =
      some back ∧ Resumed p back := by
  intro p
  have hstub : ∀ q, codeAtStubs (stubsAt q).toNat = some q := by
    intro q
    cases q with
    | isr v =>
      revert v
      decide +kernel
    | irq n =>
      revert n
      decide +kernel
    | syscall => decide +kernel
  have hdispatched := (interrupt_dispatched 0x1000 hstub (sysV_scratch 23)
    (fun _ => 0xFF) p 0x8FFC 2 14).2 (.isr 14) rfl
  obtain ⟨-, -, back, htaken, hresumed, -⟩ := hdispatched
  exact ⟨back, htaken, hresumed (by decide)⟩

end Idt

end Kos
