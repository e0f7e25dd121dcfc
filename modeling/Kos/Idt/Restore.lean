import Kos.Idt.Model
/-!
# Idt — what comes back from an interrupt

The stack of a path is a list of words over the frame the processor has
pushed. A common handler pops what it pushed, in the opposite order, and
passes over the vector and the error code, so nothing is left of its list
at `iretq`. `isr_syscall` pops `rdi` and `rbp` in each other's places and
then takes the popped `rdi`, which is the `rbp` of the program, for the
stack pointer.
-/

namespace Kos

namespace Idt

open Stack

variable {handler : Machine → Machine} {ret : BitVec 64} {m : Machine} {base : BitVec 64}
  {ws rest : List (BitVec 64)} {words : ℕ}

/-! ## Runs -/

theorem run_push (rs : List Gpr) (code : List Instr) (m : Machine) :
    run handler ret (rs.map .push ++ code) 0 m =
      run handler ret code 0 { m with cpu := pushAll rs m.cpu } := by
  induction rs generalizing m with
  | nil => rfl
  | cons r rs ih => exact ih { m with cpu := m.cpu.push (m.cpu.reg r) }

theorem run_pop (rs : List Gpr) (code : List Instr) (m : Machine) :
    run handler ret (rs.map .pop ++ code) 0 m =
      run handler ret code 0 { m with cpu := popAll rs m.cpu } := by
  induction rs generalizing m with
  | nil => rfl
  | cons r rs ih => exact ih { m with cpu := m.cpu.pop r }

theorem run_pushImm (v : ℕ) (code : List Instr) (m : Machine) :
    run handler ret (.pushImm v :: code) 0 m =
      run handler ret code 0 (exec handler ret m (.pushImm v)) := rfl

/-- The machine after `mov rdi, rsp` and a call. -/
def called (handler : Machine → Machine) (ret : BitVec 64) (m : Machine) : Machine :=
  exec handler ret (exec handler ret m (.movFromRsp .rdi)) .call

theorem run_call (code : List Instr) (m : Machine) :
    run handler ret ([.movFromRsp .rdi, .call] ++ code) 0 m =
      run handler ret code 0 (called handler ret m) := rfl

/-- **A call leaves the words on the stack** that belong to the caller. -/
theorem holds_called (ret : BitVec 64) (hsysv : ∀ m, SysV words m (handler m)) (h : Holds base m.cpu ws)
    (hwords : ws.length ≤ words) (hfits : 8 * (ws.length + 1) ≤ 2 ^ 64) :
    Holds base (called handler ret m).cpu ws ∧
      ∀ r ∈ calleeSaved, (called handler ret m).cpu.reg r = m.cpu.reg r := by
  set before : Machine :=
    { m.setReg .rdi m.cpu.rsp with cpu := (m.setReg .rdi m.cpu.rsp).cpu.push ret } with hbefore
  have hreturn := hsysv before
  have hset : Holds base (m.setReg .rdi m.cpu.rsp).cpu ws := ⟨h.fits, h.base, h.words⟩
  have hpushed : Holds base before.cpu ([ret] ++ ws) := hset.push hfits ret
  have hdropped := hpushed.drop 8 rfl
  refine ⟨hdropped.congr hreturn.rsp fun k hk => hreturn.frame k (by omega), fun r hr => ?_⟩
  refine (hreturn.saved r hr).trans (Function.update_of_ne ?_ ..)
  rintro rfl
  revert hr
  decide

/-! ## The common handlers -/

theorem restoreOrder_nodup : restoreOrder.Nodup := by decide

theorem mem_restoreOrder (r : Gpr) : r ∈ restoreOrder := by cases r <;> decide

/-- **A common handler restores every register** and leaves the stack
pointer at the base, if what it does after the call keeps the stack. -/
theorem common_restores (ret : BitVec 64) (hsysv : ∀ m, SysV 17 m (handler m)) {after : List Instr}
    (hafter : ∀ code m, ∃ m', run handler ret (after ++ code) 0 m = run handler ret code 0 m' ∧
      m'.cpu.rsp = m.cpu.rsp ∧ m'.cpu.mem = m.cpu.mem) {v e : BitVec 64}
    (h : Holds base m.cpu [v, e]) :
    (run handler ret (common after) 0 m).cpu.rsp = base ∧
      ∀ r, (run handler ret (common after) 0 m).cpu.reg r = m.cpu.reg r := by
  have hlen : ((saveOrder.map m.cpu.reg).reverse ++ [v, e]).length = 17 := rfl
  have hsaved := (h.pushAll saveOrder (Nat.le_of_ble_eq_true rfl)).1
  obtain ⟨hcalled, -⟩ := @holds_called handler { m with cpu := pushAll saveOrder m.cpu } base _ 17
    ret hsysv hsaved hlen.le (by rw [hlen]; decide)
  obtain ⟨m', hrun, hrsp, hmem⟩ := hafter (restoreOrder.map .pop ++ [.addRsp 16])
    (called handler ret { m with cpu := pushAll saveOrder m.cpu })
  -- the words in front are the registers in the order they are popped in
  have hbefore : Holds base m'.cpu (restoreOrder.map m.cpu.reg ++ [v, e]) :=
    hcalled.congr hrsp fun k _ => by rw [hmem]
  obtain ⟨hleft, hregs, -, -⟩ := hbefore.popAll restoreOrder rfl restoreOrder_nodup
  have htwo : Holds base _ ([v, e] ++ []) := hleft
  have hend := htwo.drop 16 rfl
  rw [common, run_push, run_call, hrun, run_pop]
  refine ⟨?_, fun r => List.map_inj_left.1 hregs r (mem_restoreOrder r)⟩
  exact (BitVec.add_zero _).symm.trans hend.base

/-- The end of the interrupt changes `rax`, a flag and ports. -/
theorem run_sendEoi (code : List Instr) (m : Machine) :
    ∃ m', run handler ret (sendEoi ++ code) 0 m = run handler ret code 0 m' ∧
      m'.cpu.rsp = m.cpu.rsp ∧ m'.cpu.mem = m.cpu.mem := by
  simp only [sendEoi, List.cons_append, List.nil_append, run]
  split
  · exact ⟨_, rfl, rfl, rfl⟩
  · exact ⟨_, rfl, rfl, rfl⟩

/-- **From a stub to `iretq`**: the stub leaves the vector and an error
code on the stack, one of the two pushed by the processor or by itself. -/
theorem isr_restores (hsysv : ∀ m, SysV 17 m (handler m)) (v : Fin 32) (m : Machine) :
    Restored (.isr v) m (run handler ret (Path.isr v).code 0 m) := by
  have hafter : ∀ code m, ∃ m', run handler ret ([] ++ code) 0 m = run handler ret code 0 m' ∧
      m'.cpu.rsp = m.cpu.rsp ∧ m'.cpu.mem = m.cpu.mem := fun _ m => ⟨m, rfl, rfl, rfl⟩
  by_cases hv : v.val ∈ errorVectors
  · have hstub : Holds (m.cpu.rsp + 8#64) (exec handler ret m (.pushImm v)).cpu
        [BitVec.ofNat 64 v, load m.cpu.mem (m.cpu.rsp + BitVec.ofNat 64 (8 * 0))] :=
      (Holds.loads m.cpu 1 (by decide)).push (Nat.le_of_ble_eq_true rfl) _
    obtain ⟨hrsp, hregs⟩ := common_restores ret hsysv hafter hstub
    rw [Path.code, if_pos hv, isrErr, List.singleton_append, run_pushImm]
    exact ⟨hrsp.trans (if_pos hv).symm, fun r _ => hregs r⟩
  · have hstub : Holds m.cpu.rsp
        (exec handler ret (exec handler ret m (.pushImm 0)) (.pushImm v)).cpu
        [BitVec.ofNat 64 v, BitVec.ofNat 64 0] :=
      ((Holds.empty m.cpu).push (by decide) _).push (Nat.le_of_ble_eq_true rfl) _
    obtain ⟨hrsp, hregs⟩ := common_restores ret hsysv hafter hstub
    rw [Path.code, if_neg hv, isrNoerr, List.cons_append, List.singleton_append, run_pushImm,
      run_pushImm]
    exact ⟨hrsp.trans (if_neg hv).symm, fun r _ => hregs r⟩

theorem irq_restores (hsysv : ∀ m, SysV 17 m (handler m)) (n : Fin 16) (m : Machine) :
    Restored (.irq n) m (run handler ret (Path.irq n).code 0 m) := by
  have hstub : Holds m.cpu.rsp
      (exec handler ret (exec handler ret m (.pushImm 0)) (.pushImm (32 + n))).cpu
      [BitVec.ofNat 64 (32 + n), BitVec.ofNat 64 0] :=
    ((Holds.empty m.cpu).push (by decide) _).push (Nat.le_of_ble_eq_true rfl) _
  obtain ⟨hrsp, hregs⟩ := common_restores ret hsysv run_sendEoi hstub
  rw [Path.code, irq, List.cons_append, List.singleton_append, run_pushImm, run_pushImm, irqCommon]
  exact ⟨hrsp, fun r _ => hregs r⟩

/-! ## The system call -/

/-- The machine when `isr_syscall` has popped what it does behind the call. -/
def syscallReturned (handler : Machine → Machine) (ret : BitVec 64) (m : Machine) : Machine :=
  let m := called handler ret { m with cpu := pushAll syscallSaveOrder m.cpu }
  { m with cpu := popAll syscallRestoreOrder m.cpu }

/-- The machine after `mov rsp, rdi; add rsp, 8`. -/
def switched (m : Machine) : Machine :=
  { m with cpu := { m.cpu with rsp := m.cpu.reg .rdi + BitVec.ofNat 64 8 } }

theorem run_switch (code : List Instr) (m : Machine) :
    run handler ret ([.movToRsp .rdi, .addRsp 8] ++ code) 0 m =
      run handler ret code 0 (switched m) := rfl

theorem run_isrSyscall (m : Machine) :
    run handler ret isrSyscall 0 m =
      { switched (syscallReturned handler ret m) with
        cpu := popAll syscallUserOrder (switched (syscallReturned handler ret m)).cpu } := by
  rw [isrSyscall, run_push, run_call, run_pop, run_switch, run_pop]
  rfl

/-- **What the first pops leave**: registers in the wrong places, the
words of the program still in memory, and the `rbp` of the program in
`rdi`. -/
structure Returned (m m' : Machine) : Prop where
  regs : syscallRestoreOrder.map m'.cpu.reg =
    [.r11, .r10, .r9, .r8, .rbp, .rdi, .rsi, .rdx, .rcx].map m.cpu.reg
  saved : ∀ r ∈ [Gpr.rbx, .r12, .r13, .r14, .r15], m'.cpu.reg r = m.cpu.reg r
  memory : Holds m.cpu.rsp { m'.cpu with rsp := m.cpu.rsp - 80#64 }
    ([.r11, .r10, .r9, .r8, .rbp, .rdi, .rsi, .rdx, .rcx, .rax].map m.cpu.reg)

theorem returned (ret : BitVec 64) (hsysv : ∀ m, SysV 10 m (handler m)) (m : Machine) :
    Returned m (syscallReturned handler ret m) := by
  have hlen : ((syscallSaveOrder.map m.cpu.reg).reverse ++ []).length = 10 := rfl
  obtain ⟨hpushed, hreg⟩ := (Holds.empty m.cpu).pushAll syscallSaveOrder
    (Nat.le_of_ble_eq_true rfl)
  obtain ⟨hcalled, hsaved⟩ := @holds_called handler
    { m with cpu := pushAll syscallSaveOrder m.cpu } m.cpu.rsp _ 10 ret hsysv hpushed hlen.le
    (by rw [hlen]; decide)
  have hwords : Holds m.cpu.rsp
      (called handler ret { m with cpu := pushAll syscallSaveOrder m.cpu }).cpu
      ([.r11, .r10, .r9, .r8, .rbp, .rdi, .rsi, .rdx, .rcx].map m.cpu.reg ++
        [m.cpu.reg .rax]) := hcalled
  obtain ⟨-, hregs, hkept, hmem⟩ := hwords.popAll syscallRestoreOrder rfl (by decide)
  have hrsp : m.cpu.rsp - 80#64 =
      (called handler ret { m with cpu := pushAll syscallSaveOrder m.cpu }).cpu.rsp := by
    rw [← hcalled.base, hlen]
    exact BitVec.add_sub_cancel ..
  refine ⟨hregs, fun r hr => ?_, hcalled.congr hrsp fun k _ => by rw [← hmem]; rfl⟩
  have hcallee : r ∈ calleeSaved ∧ r ∉ syscallRestoreOrder := by
    revert hr
    cases r <;> decide
  exact (hkept r hcallee.2).trans ((hsaved r hcallee.1).trans (congrFun hreg r))

/-- **The registers a system call gives back in spite of its pops**: the
`rbp` of the program is the address of the word where its own `rbp` was
pushed, less 8, and the registers that trade places are equal. -/
structure Coincide (m : Machine) : Prop where
  rbp : m.cpu.reg .rbp = m.cpu.rsp - 56#64
  chain : ∀ r ∈ [Gpr.rcx, .rdx, .rsi, .r8, .r9, .r11], m.cpu.reg r = m.cpu.reg .rbp
  pair : ∀ r ∈ [Gpr.rax, .r10], m.cpu.reg r = m.cpu.reg .rdi

variable {m' : Machine}

theorem Returned.reg (h : Returned m m') :
    m'.cpu.reg .rcx = m.cpu.reg .rdx ∧ m'.cpu.reg .rdx = m.cpu.reg .rsi ∧
      m'.cpu.reg .rbp = m.cpu.reg .rcx ∧ m'.cpu.reg .rdi = m.cpu.reg .rbp := by
  have hregs := h.regs
  simp only [syscallRestoreOrder, List.map_cons, List.cons.injEq] at hregs
  obtain ⟨-, -, -, -, hrdi, -, hrdx, hrcx, hrbp, -⟩ := hregs
  exact ⟨hrcx, hrdx, hrbp, hrdi⟩

/-- **The last pops** read the words of the program from the `rbp` slot on
if the stack pointer is right, which it is at the end only then. -/
theorem Returned.user (h : Returned m m') :
    (popAll syscallUserOrder (switched m').cpu).rsp = m.cpu.reg .rbp + 56#64 ∧
      (m.cpu.reg .rbp = m.cpu.rsp - 56#64 →
        syscallUserOrder.map (popAll syscallUserOrder (switched m').cpu).reg =
          [.rbp, .rdi, .rsi, .rdx, .rcx, .rax].map m.cpu.reg) ∧
      ∀ r, r ∉ syscallUserOrder →
        (popAll syscallUserOrder (switched m').cpu).reg r = m'.cpu.reg r := by
  have hrsp : (switched m').cpu.rsp = m.cpu.reg .rbp + 8#64 :=
    congrArg (· + 8#64) h.reg.2.2.2
  have hloads := Holds.loads (switched m').cpu 6 (by decide)
  rw [← List.append_nil (List.map _ _)] at hloads
  obtain ⟨hend, -, hkept, -⟩ := hloads.popAll syscallUserOrder rfl (by decide)
  refine ⟨?_, fun hrbp => ?_, hkept⟩
  · have hbase := hend.base
    rw [List.length_nil, Nat.mul_zero, BitVec.add_zero, hrsp] at hbase
    rw [hbase, BitVec.add_assoc]
    rfl
  · have hall : Holds m.cpu.rsp { m'.cpu with rsp := m.cpu.rsp - 80#64 }
        ([.r11, .r10, .r9, .r8].map m.cpu.reg ++
          [.rbp, .rdi, .rsi, .rdx, .rcx, .rax].map m.cpu.reg) := h.memory
    have hwords := hall.drop 32 rfl
    have hthere : (switched m').cpu.rsp = m.cpu.rsp - 80#64 + BitVec.ofNat 64 32 := by
      rw [hrsp, hrbp]
      bv_omega
    have huser : Holds m.cpu.rsp (switched m').cpu
        ([.rbp, .rdi, .rsi, .rdx, .rcx, .rax].map m.cpu.reg ++ []) := by
      rw [List.append_nil]
      exact hwords.congr hthere fun _ _ => rfl
    exact (huser.popAll syscallUserOrder rfl (by decide)).2.1

theorem coincide_iff (m : Machine) :
    Coincide m ↔ m.cpu.reg .rbp = m.cpu.rsp - 56#64 ∧
      (m.cpu.reg .rcx = m.cpu.reg .rbp ∧ m.cpu.reg .rdx = m.cpu.reg .rbp ∧
        m.cpu.reg .rsi = m.cpu.reg .rbp ∧ m.cpu.reg .r8 = m.cpu.reg .rbp ∧
        m.cpu.reg .r9 = m.cpu.reg .rbp ∧ m.cpu.reg .r11 = m.cpu.reg .rbp) ∧
      m.cpu.reg .rax = m.cpu.reg .rdi ∧ m.cpu.reg .r10 = m.cpu.reg .rdi := by
  constructor
  · rintro ⟨hrbp, hchain, hpair⟩
    simp only [List.forall_mem_cons, List.not_mem_nil, false_imp_iff, implies_true, and_true]
      at hchain hpair
    exact ⟨hrbp, hchain, hpair⟩
  · rintro ⟨hrbp, hchain, hpair⟩
    refine ⟨hrbp, ?_, ?_⟩
    · simpa only [List.forall_mem_cons, List.not_mem_nil, false_imp_iff, implies_true, and_true]
        using hchain
    · simpa only [List.forall_mem_cons, List.not_mem_nil, false_imp_iff, implies_true, and_true]
        using hpair

/-- **When a system call restores the program.** -/
theorem syscall_restored (hsysv : ∀ m, SysV 10 m (handler m)) (m : Machine) :
    Restored .syscall m (run handler ret isrSyscall 0 m) ↔ Coincide m := by
  have hback := returned ret hsysv m
  obtain ⟨hrcx, hrdx, hrbp, -⟩ := hback.reg
  obtain ⟨hrsp, huser, hkept⟩ := hback.user
  have hframe : m.cpu.reg .rbp + 56#64 = m.cpu.rsp ↔ m.cpu.reg .rbp = m.cpu.rsp - 56#64 := by
    constructor <;> intro h <;> bv_omega
  have hmiddle := fun r h h' => (hkept r h).trans (hback.saved r h')
  rw [run_isrSyscall, coincide_iff]
  constructor
  · rintro ⟨hend, hall⟩
    have hat := hframe.1 (hrsp.symm.trans hend)
    have hfix := fun r hr => (hall r fun _ => hr).symm
    have hregs := huser hat
    simp only [syscallUserOrder, List.map_cons, List.cons.injEq] at hregs
    obtain ⟨hr11, hr10, hr9, hr8, hrsi, hrdi, -⟩ := hregs
    -- what each register is popped from, as values of the program
    have h1 := (hfix .rcx (by decide)).trans ((hkept .rcx (by decide)).trans hrcx)
    have h2 := (hfix .rdx (by decide)).trans ((hkept .rdx (by decide)).trans hrdx)
    have h3 := (hfix .rbp (by decide)).trans ((hkept .rbp (by decide)).trans hrbp)
    have h4 := (hfix .r11 (by decide)).trans hr11
    have h5 := (hfix .r10 (by decide)).trans hr10
    have h6 := (hfix .r9 (by decide)).trans hr9
    have h7 := (hfix .r8 (by decide)).trans hr8
    have h8 := (hfix .rsi (by decide)).trans hrsi
    have h9 := (hfix .rdi (by decide)).trans hrdi
    refine ⟨hat, ⟨h3.symm, h1.symm.trans h3.symm, h8.trans h3.symm, ?_, ?_, h4⟩, h9.symm, h5⟩
    · exact h7.trans (h1.symm.trans h3.symm)
    · exact h6.trans (h8.trans h3.symm)
  · rintro ⟨hat, ⟨hcx, hdx, hsi, h8, h9, h11⟩, hax, h10⟩
    have hregs := huser hat
    simp only [syscallUserOrder, List.map_cons, List.cons.injEq] at hregs
    obtain ⟨hr11, hr10, hr9, hr8, hrsi, hrdi, -⟩ := hregs
    refine ⟨hrsp.trans (hframe.2 hat), fun r hr => ?_⟩
    cases r with
    | rax => exact absurd rfl (hr rfl)
    | rcx => exact (hkept .rcx (by decide)).trans (hrcx.trans (hdx.trans hcx.symm))
    | rdx => exact (hkept .rdx (by decide)).trans (hrdx.trans (hsi.trans hdx.symm))
    | rbp => exact (hkept .rbp (by decide)).trans (hrbp.trans hcx)
    | r11 => exact hr11.trans h11.symm
    | r10 => exact hr10.trans h10.symm
    | r9 => exact hr9.trans (hsi.trans h9.symm)
    | r8 => exact hr8.trans (hdx.trans h8.symm)
    | rsi => exact hrsi.trans (hcx.trans hsi.symm)
    | rdi => exact hrdi.trans hax
    | rbx => exact hmiddle .rbx (by decide) (by decide)
    | r12 => exact hmiddle .r12 (by decide) (by decide)
    | r13 => exact hmiddle .r13 (by decide) (by decide)
    | r14 => exact hmiddle .r14 (by decide) (by decide)
    | r15 => exact hmiddle .r15 (by decide) (by decide)

/-- **When an interrupted program is restored**: after an exception or an
interrupt always, and after a system call if its registers happen to
coincide. -/
theorem restored_iff (p : Path) (hsysv : ∀ m, SysV p.words m (handler m)) (m : Machine) :
    Restored p m (run handler ret p.code 0 m) ↔ (p = .syscall → Coincide m) := by
  cases p with
  | isr v => exact iff_of_true (isr_restores hsysv v m) fun h => nomatch h
  | irq n => exact iff_of_true (irq_restores hsysv n m) fun h => nomatch h
  | syscall => exact (syscall_restored hsysv m).trans ⟨fun h _ => h, fun h => h rfl⟩

/-! ## A callee -/

/-- A C function that uses the registers it need not keep, and returns 7. -/
def scratch (m : Machine) : Machine :=
  { m with cpu := { m.cpu with
      reg := fun r => if r ∈ calleeSaved then m.cpu.reg r else if r = .rax then 7 else 0
      rsp := m.cpu.rsp + 8#64 } }

theorem sysV_scratch (words : ℕ) (m : Machine) : SysV words m (scratch m) :=
  ⟨rfl, fun _ hr => if_pos hr, fun _ _ => rfl⟩

/-- A program with a different value in every register. -/
def program : Machine :=
  ⟨⟨fun r => match r with
      | .rax => 1 | .rbx => 2 | .rcx => 3 | .rdx => 4 | .rsi => 5 | .rdi => 6 | .rbp => 0x7000
      | .r8 => 8 | .r9 => 9 | .r10 => 10 | .r11 => 11 | .r12 => 12 | .r13 => 13 | .r14 => 14
      | .r15 => 15, 0x9000, fun _ => 0⟩, false, []⟩

/-- A page fault is returned from with every register as it was. -/
theorem restored_iff_fault :
    Restored (.isr 14) program (run scratch 0x1000 (Path.isr 14).code 0 program) :=
  (restored_iff (.isr 14) (sysV_scratch _) program).2 fun h => nomatch h

/-- A system call is not: `rcx` comes back as `rdx` was, and the stack
pointer is where the program had its `rbp`. -/
theorem syscall_spoils :
    (run scratch 0x1000 Path.syscall.code 0 program).cpu.rsp = 0x7038 ∧
      ¬ ∀ p m, Restored p m (run scratch 0x1000 p.code 0 m) := by
  refine ⟨?_, fun h => ?_⟩
  · have hrun : run scratch 0x1000 Path.syscall.code 0 program = _ := run_isrSyscall program
    rw [hrun]
    exact (returned 0x1000 (sysV_scratch 10) program).user.1
  · have hcond := (syscall_restored (sysV_scratch 10) program).1 (h .syscall program)
    exact absurd hcond.rbp (by decide)

end Idt

end Kos
