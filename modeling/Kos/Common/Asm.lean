import Kos.Common.ByteMem
import Mathlib.Data.List.Nodup
/-!
# Common — a stack machine of 64-bit registers

The few instructions a hand-written context switch consists of. Code is
a list of instructions and a jump goes forward, over a number of them.
Pushing registers writes a block of words below the stack pointer, the
last one pushed first; popping reads such a block. The two lemmas about
whole lists of registers say so, and a proof about a routine that saves
and restores registers needs no more about memory.
-/

namespace Kos

namespace Asm

/-- The registers. -/
inductive Reg
  | rbx
  | rbp
  | r12
  | r13
  | r14
  | r15
  | rdi
  | rsi
  | rdx
  | rsp
  deriving DecidableEq, Repr

/-- A machine: registers, the zero flag, the page-table base, where it
executes, and memory. -/
structure Machine where
  reg : Reg → UInt64
  zf : Bool
  cr3 : UInt64
  rip : UInt64
  mem : ByteMem

/-- The instructions; `jz n` jumps over the next `n`. -/
inductive Instr
  | push (r : Reg)
  | pop (r : Reg)
  | mov (dst src : Reg)
  | store (addr src : Reg)
  | movCr3 (src : Reg)
  | test (r : Reg)
  | jz (n : ℕ)
  | ret
  deriving DecidableEq, Repr

/-- Replace one register. -/
def Machine.setReg (m : Machine) (r : Reg) (v : UInt64) : Machine :=
  { m with reg := Function.update m.reg r v }

/-- The word at an address. -/
def word (mem : ByteMem) (a : UInt64) : UInt64 := UInt64.ofNat (mem.load a.toNat 8)

/-- Push the word a register holds. -/
def Machine.push (m : Machine) (r : Reg) : Machine :=
  { m.setReg .rsp (m.reg .rsp - 8) with
    mem := m.mem.store (m.reg .rsp - 8).toNat 8 (m.reg r).toNat }

/-- Pop a word into a register. -/
def Machine.pop (m : Machine) (r : Reg) : Machine :=
  (m.setReg .rsp (m.reg .rsp + 8)).setReg r (word m.mem (m.reg .rsp))

/-- Return to the address on top of the stack. -/
def Machine.ret (m : Machine) : Machine :=
  { m.setReg .rsp (m.reg .rsp + 8) with rip := word m.mem (m.reg .rsp) }

theorem Machine.ret_mem (m : Machine) : m.ret.mem = m.mem := rfl

/-- One instruction. -/
def exec (m : Machine) : Instr → Machine
  | .push r => m.push r
  | .pop r => m.pop r
  | .mov dst src => m.setReg dst (m.reg src)
  | .store addr src => { m with mem := m.mem.store (m.reg addr).toNat 8 (m.reg src).toNat }
  | .movCr3 src => { m with cr3 := m.reg src }
  | .test r => { m with zf := m.reg r == 0 }
  | .jz _ => m
  | .ret => m.ret

/-- Run code, passing over its first `skip` instructions. -/
def run : List Instr → ℕ → Machine → Machine
  | [], _, m => m
  | _ :: code, skip + 1, m => run code skip m
  | .jz n :: code, 0, m => run code (if m.zf then n else 0) m
  | i :: code, 0, m => run code 0 (exec m i)

/-- Push registers in order. -/
def pushAll (rs : List Reg) (m : Machine) : Machine := rs.foldl Machine.push m

/-- Pop registers in order. -/
def popAll (rs : List Reg) (m : Machine) : Machine := rs.foldl Machine.pop m

variable {m : Machine} {mem mem' : ByteMem} {r : Reg} {rs : List Reg} {a : ℕ} {w : UInt64}
  {ws : List UInt64}

theorem run_push (rs : List Reg) (code : List Instr) (m : Machine) :
    run (rs.map .push ++ code) 0 m = run code 0 (pushAll rs m) := by
  induction rs generalizing m with
  | nil => rfl
  | cons r rs ih => exact ih (m.push r)

theorem run_pop (rs : List Reg) (code : List Instr) (m : Machine) :
    run (rs.map .pop ++ code) 0 m = run code 0 (popAll rs m) := by
  induction rs generalizing m with
  | nil => rfl
  | cons r rs ih => exact ih (m.pop r)

/-! ## Blocks of words -/

/-- **The words from an address on.** -/
def Words (mem : ByteMem) : ℕ → List UInt64 → Prop
  | _, [] => True
  | a, w :: ws => mem.load a 8 = w.toNat ∧ Words mem (a + 8) ws

theorem Words.congr (h : Words mem a ws) (hm : ∀ x, a ≤ x → x < a + 8 * ws.length → mem' x = mem x) :
    Words mem' a ws := by
  induction ws generalizing a with
  | nil => trivial
  | cons w ws ih =>
    rw [List.length_cons] at hm
    refine ⟨?_, ih h.2 fun x h1 h2 => hm x (by omega) (by omega)⟩
    rw [← h.1]
    exact ByteMem.load_congr fun x h1 h2 => hm x h1 (by omega)

theorem words_append {ws' : List UInt64} :
    Words mem a (ws ++ ws') ↔ Words mem a ws ∧ Words mem (a + 8 * ws.length) ws' := by
  induction ws generalizing a with
  | nil => simp [Words]
  | cons w ws ih =>
    have ha : a + 8 + 8 * ws.length = a + 8 * (ws.length + 1) := by omega
    rw [List.cons_append, Words, Words, ih, List.length_cons, ha, and_assoc]

theorem load_store_word (mem : ByteMem) (a : ℕ) (w : UInt64) :
    (mem.store a 8 w.toNat).load a 8 = w.toNat :=
  ByteMem.load_store_of_lt w.toNat_lt

theorem word_of_load {b : UInt64} (h : mem.load b.toNat 8 = w.toNat) : word mem b = w := by
  rw [word, h, UInt64.ofNat_toNat]

theorem toNat_word (mem : ByteMem) (b : UInt64) : (word mem b).toNat = mem.load b.toNat 8 := by
  have hlt : mem.load b.toNat 8 < 2 ^ 64 := ByteMem.load_lt mem b.toNat 8
  rw [word, UInt64.toNat_ofNat_of_lt' hlt]

theorem toNat_sub_eight {b : UInt64} (h : 8 ≤ b.toNat) : (b - 8).toNat = b.toNat - 8 :=
  UInt64.toNat_sub_of_le _ _ (by rwa [UInt64.le_iff_toNat_le])

theorem toNat_add_eight {b : UInt64} (h : b.toNat + 8 < 2 ^ 64) : (b + 8).toNat = b.toNat + 8 := by
  rw [UInt64.toNat_add]
  exact Nat.mod_eq_of_lt h

/-! ## Pushing and popping -/

/-- **What pushing registers does**: the stack pointer goes down, the block
below it holds the registers, the last one pushed first, and nothing
else changes. -/
structure Pushed (rs : List Reg) (m m' : Machine) : Prop where
  rsp : (m'.reg .rsp).toNat = (m.reg .rsp).toNat - 8 * rs.length
  reg : ∀ r, r ≠ .rsp → m'.reg r = m.reg r
  cr3 : m'.cr3 = m.cr3
  mem : ∀ x, ¬ ((m.reg .rsp).toNat - 8 * rs.length ≤ x ∧ x < (m.reg .rsp).toNat) →
    m'.mem x = m.mem x
  words : Words m'.mem ((m.reg .rsp).toNat - 8 * rs.length) (rs.reverse.map m.reg)

theorem pushed (hrs : .rsp ∉ rs) (hroom : 8 * rs.length ≤ (m.reg .rsp).toNat) :
    Pushed rs m (pushAll rs m) := by
  induction rs generalizing m with
  | nil => exact ⟨rfl, fun _ _ => rfl, rfl, fun _ _ => rfl, trivial⟩
  | cons r rs ih =>
    rw [List.mem_cons, not_or] at hrs
    rw [List.length_cons] at hroom
    have hsp : ((m.push r).reg .rsp).toNat = (m.reg .rsp).toNat - 8 := by
      simp only [Machine.push, Machine.setReg, Function.update_self]
      exact toNat_sub_eight (by omega)
    have hreg : ∀ q, q ≠ .rsp → (m.push r).reg q = m.reg q := fun q hq => Function.update_of_ne hq ..
    have hmem : (m.push r).mem = m.mem.store ((m.reg .rsp).toNat - 8) 8 (m.reg r).toNat := by
      rw [← toNat_sub_eight (b := m.reg .rsp) (by omega)]
      rfl
    have hrest := ih (m := m.push r) hrs.2 (by omega)
    have hlen : (m.reg .rsp).toNat - 8 * (r :: rs).length =
        (m.reg .rsp).toNat - 8 - 8 * rs.length := by
      rw [List.length_cons]
      omega
    change Pushed (r :: rs) m (pushAll rs (m.push r))
    refine ⟨?_, ?_, hrest.cr3, ?_, ?_⟩
    · rw [hrest.rsp, hsp, hlen]
    · intro q hq
      rw [hrest.reg q hq, hreg q hq]
    · intro x hx
      rw [hlen] at hx
      rw [hrest.mem x (by rw [hsp]; omega), hmem]
      exact ByteMem.store_of_not_mem (by omega)
    · -- the register pushed first stands above the block of the others
      have hsame : rs.reverse.map (m.push r).reg = rs.reverse.map m.reg :=
        List.map_congr_left fun q hq => hreg q fun hc => hrs.2 (by simpa [hc] using hq)
      have htop : ((m.reg .rsp).toNat - 8 - 8 * rs.length) + 8 * (rs.reverse.map m.reg).length =
          (m.reg .rsp).toNat - 8 := by
        rw [List.length_map, List.length_reverse]
        omega
      have hwords := hrest.words
      rw [hsp, hsame] at hwords
      rw [hlen, List.reverse_cons, List.map_append, words_append, htop]
      refine ⟨hwords, ?_, trivial⟩
      refine (ByteMem.load_congr fun x h1 h2 => hrest.mem x (by rw [hsp]; omega)).trans ?_
      rw [hmem, load_store_word]

theorem popAll_mem (rs : List Reg) (m : Machine) : (popAll rs m).mem = m.mem := by
  induction rs generalizing m with
  | nil => rfl
  | cons r rs ih => exact ih (m.pop r)

/-- **What popping registers does**, from a block of words. -/
structure Popped (rs : List Reg) (ws : List UInt64) (m m' : Machine) : Prop where
  rsp : (m'.reg .rsp).toNat = (m.reg .rsp).toNat + 8 * rs.length
  regs : rs.map m'.reg = ws
  reg : ∀ r, r ∉ rs → r ≠ .rsp → m'.reg r = m.reg r
  cr3 : m'.cr3 = m.cr3

theorem popped (hnd : rs.Nodup) (hrs : .rsp ∉ rs) (hlen : ws.length = rs.length)
    (hroom : (m.reg .rsp).toNat + 8 * rs.length < 2 ^ 64)
    (hws : Words m.mem (m.reg .rsp).toNat ws) : Popped rs ws m (popAll rs m) := by
  induction rs generalizing m ws with
  | nil =>
    rw [List.length_eq_zero_iff.1 hlen]
    exact ⟨rfl, rfl, fun _ _ _ => rfl, rfl⟩
  | cons r rs ih =>
    cases ws with
    | nil => cases hlen
    | cons w ws =>
      rw [List.mem_cons, not_or] at hrs
      rw [List.nodup_cons] at hnd
      rw [List.length_cons] at hroom
      have hsp : ((m.pop r).reg .rsp).toNat = (m.reg .rsp).toNat + 8 := by
        simp only [Machine.pop, Machine.setReg, Function.update_of_ne hrs.1, Function.update_self]
        exact toNat_add_eight (by omega)
      have hreg : ∀ q, q ≠ r → q ≠ .rsp → (m.pop r).reg q = m.reg q := fun q hq hq' => by
        simp only [Machine.pop, Machine.setReg, Function.update_of_ne hq, Function.update_of_ne hq']
      have htop : (m.pop r).reg r = w := by
        simp only [Machine.pop, Machine.setReg, Function.update_self]
        exact word_of_load hws.1
      have hlen' : ws.length = rs.length := by simpa using hlen
      have hrest := ih (m := m.pop r) hnd.2 hrs.2 hlen' (by omega)
        (by rw [hsp]; exact hws.2)
      have hr := hrest.reg r hnd.1 (Ne.symm hrs.1)
      change Popped (r :: rs) (w :: ws) m (popAll rs (m.pop r))
      refine ⟨?_, ?_, ?_, hrest.cr3⟩
      · rw [hrest.rsp, hsp, List.length_cons]
        omega
      · rw [List.map_cons, hrest.regs, hr, htop]
      · intro q hq hq'
        rw [List.mem_cons, not_or] at hq
        rw [hrest.reg q hq.2 hq', hreg q hq.1 hq']

end Asm

end Kos
