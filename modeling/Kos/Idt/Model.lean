import Kos.Common.Stack
/-!
# Idt — the ways into the kernel, as `idt.asm` writes them

An exception or an interrupt enters at its stub, which pushes its vector,
and, where the processor has pushed no error code, a zero for it. The
common handlers save every register, call into C and restore what they
saved. The system call has a handler of its own. The C functions are not
here: a call is a function of the machine, of which it is known that it
returns. Code ends where `iretq` is reached.
-/

namespace Kos

namespace Idt

/-- The general-purpose registers but `rsp`. -/
inductive Gpr
  | rax
  | rbx
  | rcx
  | rdx
  | rsi
  | rdi
  | rbp
  | r8
  | r9
  | r10
  | r11
  | r12
  | r13
  | r14
  | r15
  deriving DecidableEq, Repr

/-- The processor, the carry flag, and the bytes written to ports, the
last one first. -/
structure Machine where
  cpu : Stack.Cpu Gpr
  cf : Bool
  out : List (ℕ × BitVec 8)

/-- The instructions; `jb n` jumps over the next `n`. -/
inductive Instr
  | push (r : Gpr)
  | pushImm (v : ℕ)
  | pop (r : Gpr)
  | movFromRsp (dst : Gpr)
  | movToRsp (src : Gpr)
  | addRsp (n : ℕ)
  | loadRsp (dst : Gpr) (disp : ℕ)
  | sub (dst : Gpr) (imm : ℕ)
  | cmpAl (imm : ℕ)
  | jb (n : ℕ)
  | movAl (imm : ℕ)
  | outAl (port : ℕ)
  | call
  deriving DecidableEq, Repr

/-- Replace one register. -/
def Machine.setReg (m : Machine) (r : Gpr) (v : BitVec 64) : Machine :=
  { m with cpu := { m.cpu with reg := Function.update m.cpu.reg r v } }

/-- `al`. -/
def Machine.al (m : Machine) : BitVec 8 := (m.cpu.reg .rax).setWidth 8

section Run

-- what the called function does, up to its return, and where it returns to
variable (handler : Machine → Machine) (ret : BitVec 64)

/-- One instruction. Of the flags only the one `cmp` sets is tested. -/
def exec (m : Machine) : Instr → Machine
  | .push r => { m with cpu := m.cpu.push (m.cpu.reg r) }
  | .pushImm v => { m with cpu := m.cpu.push (BitVec.ofNat 64 v) }
  | .pop r => { m with cpu := m.cpu.pop r }
  | .movFromRsp dst => m.setReg dst m.cpu.rsp
  | .movToRsp src => { m with cpu := { m.cpu with rsp := m.cpu.reg src } }
  | .addRsp n => { m with cpu := { m.cpu with rsp := m.cpu.rsp + BitVec.ofNat 64 n } }
  | .loadRsp dst disp => m.setReg dst (Stack.load m.cpu.mem (m.cpu.rsp + BitVec.ofNat 64 disp))
  | .sub dst imm => m.setReg dst (m.cpu.reg dst - BitVec.ofNat 64 imm)
  | .cmpAl imm => { m with cf := m.al < BitVec.ofNat 8 imm }
  | .jb _ => m
  | .movAl imm => m.setReg .rax ((m.cpu.reg .rax).extractLsb' 8 56 ++ BitVec.ofNat 8 imm)
  | .outAl port => { m with out := (port, m.al) :: m.out }
  | .call => handler { m with cpu := m.cpu.push ret }

/-- Run code, passing over its first `skip` instructions. -/
def run : List Instr → ℕ → Machine → Machine
  | [], _, m => m
  | _ :: code, skip + 1, m => run code skip m
  | .jb n :: code, 0, m => run code (if m.cf then n else 0) m
  | i :: code, 0, m => run code 0 (exec handler ret m i)

end Run

/-! ## The code -/

/-- The vectors declared `ISR_ERR`, for which the processor pushes an
error code. -/
def errorVectors : List ℕ := [8, 10, 11, 12, 13, 14, 17, 29]

/-- `ISR_NOERR`. -/
def isrNoerr (v : ℕ) : List Instr := [.pushImm 0, .pushImm v]

/-- `ISR_ERR`. -/
def isrErr (v : ℕ) : List Instr := [.pushImm v]

/-- `IRQ`. -/
def irq (n : ℕ) : List Instr := [.pushImm 0, .pushImm (32 + n)]

/-- What the common handlers push, in order. -/
def saveOrder : List Gpr :=
  [.rax, .rcx, .rdx, .rbx, .rbp, .rsi, .rdi, .r8, .r9, .r10, .r11, .r12, .r13, .r14, .r15]

/-- What they pop, in order. -/
def restoreOrder : List Gpr :=
  [.r15, .r14, .r13, .r12, .r11, .r10, .r9, .r8, .rdi, .rsi, .rbp, .rbx, .rdx, .rcx, .rax]

/-- A common handler that does something of its own after the call. -/
def common (after : List Instr) : List Instr :=
  saveOrder.map .push ++ ([.movFromRsp .rdi, .call] ++ (after ++ (restoreOrder.map .pop ++
    [.addRsp 16])))

/-- `isr_common`. -/
def isrCommon : List Instr := common []

/-- The end of the interrupt, for one controller or both. -/
def sendEoi : List Instr :=
  [.loadRsp .rax 120, .sub .rax 32, .cmpAl 8, .jb 2, .movAl 0xA0, .outAl 0xA0,
    -- `.send_eoi_only`
    .movAl 0x20, .outAl 0x20]

/-- `irq_common`. -/
def irqCommon : List Instr := common sendEoi

/-- What `isr_syscall` pushes, in order. -/
def syscallSaveOrder : List Gpr :=
  [.rax, .rcx, .rdx, .rsi, .rdi, .rbp, .r8, .r9, .r10, .r11]

/-- What it pops behind the call, in order. -/
def syscallRestoreOrder : List Gpr :=
  [.r11, .r10, .r9, .r8, .rdi, .rsi, .rdx, .rcx, .rbp]

/-- What it pops from the stack it takes for that of the program. -/
def syscallUserOrder : List Gpr := [.r11, .r10, .r9, .r8, .rsi, .rdi]

/-- `isr_syscall`. -/
def isrSyscall : List Instr :=
  syscallSaveOrder.map .push ++ ([.movFromRsp .rdi, .call] ++
    (syscallRestoreOrder.map .pop ++ ([.movToRsp .rdi, .addRsp 8] ++
      (syscallUserOrder.map .pop ++ []))))

/-- The ways in. -/
inductive Path
  | isr (v : Fin 32)
  | irq (n : Fin 16)
  | syscall
  deriving DecidableEq, Repr

/-- The code from the entry of a path to its `iretq`. -/
def Path.code : Path → List Instr
  | isr v => (if v.val ∈ errorVectors then isrErr v else isrNoerr v) ++ isrCommon
  | irq n => Idt.irq n ++ irqCommon
  | syscall => isrSyscall

/-- The frame the processor has pushed, which an error code lies below. -/
def Path.frame (p : Path) (m : Machine) : BitVec 64 :=
  match p with
  | isr v => if v.val ∈ errorVectors then m.cpu.rsp + 8#64 else m.cpu.rsp
  | irq _ | syscall => m.cpu.rsp

/-- The words below the frame when C is called. -/
def Path.words : Path → ℕ
  | isr _ | irq _ => 17
  | syscall => 10

/-! ## The calling convention -/

/-- The registers a C function keeps. -/
def calleeSaved : List Gpr := [.rbx, .rbp, .r12, .r13, .r14, .r15]

/-- **A return in the convention**: the return address is off the stack,
the registers of the caller are as they were, and so are the words of its
stack frame. -/
structure SysV (words : ℕ) (m m' : Machine) : Prop where
  rsp : m'.cpu.rsp = m.cpu.rsp + 8#64
  saved : ∀ r ∈ calleeSaved, m'.cpu.reg r = m.cpu.reg r
  frame : ∀ k < 8 * words, m'.cpu.mem (m.cpu.rsp + 8#64 + BitVec.ofNat 64 k) =
    m.cpu.mem (m.cpu.rsp + 8#64 + BitVec.ofNat 64 k)

/-- **The interrupted program is as it was**: the stack pointer is at the
frame, and every register is restored, but for the result of a system
call. -/
structure Restored (p : Path) (m m' : Machine) : Prop where
  rsp : m'.cpu.rsp = p.frame m
  regs : ∀ r, (p = .syscall → r ≠ .rax) → m'.cpu.reg r = m.cpu.reg r

end Idt

end Kos
