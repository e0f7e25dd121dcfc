import Kos.Common.ByteMem
import Mathlib.Data.List.Nodup
/-!
# Common — the stack of a processor as a list of words

Addresses are words of 64 bits and wrap. The words from the stack pointer
up to a base are a list, the last one pushed first: a push puts a word in
front and a pop takes one off. Nothing is asked of where the stack is, so
it may lie across the end of memory. The registers are of any type; the
stack pointer is kept apart from them.
-/

namespace Kos

namespace Stack

/-- Memory with 64-bit addresses. -/
abbrev Mem : Type := BitVec 64 → UInt8

/-- Memory seen from an address. -/
def view (mem : Mem) (a : BitVec 64) : ByteMem := fun k => mem (a + BitVec.ofNat 64 k)

/-- The word at an address, the low byte first. -/
def load (mem : Mem) (a : BitVec 64) : BitVec 64 := BitVec.ofNat 64 ((view mem a).load 0 8)

/-- Write a word. -/
def store (mem : Mem) (a v : BitVec 64) : Mem :=
  fun x => (view mem a).store 0 8 v.toNat (x - a).toNat

variable {R : Type*} {mem mem' : Mem} {a v w base : BitVec 64}
  {ws rest : List (BitVec 64)}

theorem load_congr (h : ∀ k < 8, mem' (a + BitVec.ofNat 64 k) = mem (a + BitVec.ofNat 64 k)) :
    load mem' a = load mem a := by
  have hbytes : (view mem' a).load 0 8 = (view mem a).load 0 8 :=
    ByteMem.load_congr fun k _ hk => h k (by omega)
  rw [load, load, hbytes]

theorem store_of_far {x : BitVec 64} (h : 8 ≤ (x - a).toNat) : store mem a v x = mem x := by
  have hx : a + BitVec.ofNat 64 (x - a).toNat = x := by
    rw [BitVec.ofNat_toNat, BitVec.setWidth_eq, BitVec.add_comm, BitVec.sub_add_cancel]
  rw [store, ByteMem.store_of_not_mem (by omega), view, hx]

/-- **What was stored is what is loaded.** -/
theorem load_store (mem : Mem) (a v : BitVec 64) : load (store mem a v) a = v := by
  have hbytes : (view (store mem a v) a).load 0 8 = ((view mem a).store 0 8 v.toNat).load 0 8 := by
    refine ByteMem.load_congr fun k _ hk => ?_
    have hoff : (a + BitVec.ofNat 64 k - a).toNat = k := by
      rw [BitVec.add_comm, BitVec.add_sub_cancel, BitVec.toNat_ofNat]
      omega
    rw [view, store, hoff]
  rw [load, hbytes, ByteMem.load_store_of_lt v.isLt, BitVec.ofNat_toNat, BitVec.setWidth_eq]

/-! ## Blocks of words -/

/-- **The words from an address on.** -/
def Words (mem : Mem) : BitVec 64 → List (BitVec 64) → Prop
  | _, [] => True
  | a, w :: ws => load mem a = w ∧ Words mem (a + 8#64) ws

theorem Words.congr (h : Words mem a ws)
    (hm : ∀ k < 8 * ws.length, mem' (a + BitVec.ofNat 64 k) = mem (a + BitVec.ofNat 64 k)) :
    Words mem' a ws := by
  induction ws generalizing a with
  | nil => trivial
  | cons w ws ih =>
    rw [List.length_cons] at hm
    refine ⟨?_, ih h.2 fun k hk => ?_⟩
    · rw [← h.1]
      exact load_congr fun k hk => hm k (by omega)
    · have hoff : a + 8#64 + BitVec.ofNat 64 k = a + BitVec.ofNat 64 (8 + k) := by
        rw [BitVec.add_assoc, BitVec.ofNat_add]
      rw [hoff]
      exact hm (8 + k) (by omega)

/-- A word of a block. -/
theorem Words.load (h : Words mem a ws) {i : ℕ} (hi : ws[i]? = some w) :
    Stack.load mem (a + BitVec.ofNat 64 (8 * i)) = w := by
  induction ws generalizing a i with
  | nil => cases hi
  | cons x ws ih =>
    cases i with
    | zero =>
      rw [Nat.mul_zero, BitVec.add_zero, h.1]
      exact Option.some.inj hi
    | succ i =>
      have hoff : a + BitVec.ofNat 64 (8 * (i + 1)) = a + 8#64 + BitVec.ofNat 64 (8 * i) := by
        rw [BitVec.add_assoc, ← BitVec.ofNat_add, Nat.mul_succ, Nat.add_comm]
      rw [hoff]
      exact ih h.2 hi

/-- The words that are there. -/
theorem words_loads (mem : Mem) (a : BitVec 64) (n : ℕ) :
    Words mem a ((List.range n).map fun i => load mem (a + BitVec.ofNat 64 (8 * i))) := by
  induction n generalizing a with
  | zero => trivial
  | succ n ih =>
    rw [List.range_succ_eq_map, List.map_cons, List.map_map]
    refine ⟨by rw [Nat.mul_zero, BitVec.add_zero], ?_⟩
    have hoff : ∀ i, a + BitVec.ofNat 64 (8 * (i + 1)) = a + 8#64 + BitVec.ofNat 64 (8 * i) := by
      intro i
      rw [BitVec.add_assoc, ← BitVec.ofNat_add, Nat.mul_succ, Nat.add_comm]
    have hmap : (fun i => load mem (a + BitVec.ofNat 64 (8 * i))) ∘ Nat.succ =
        fun i => load mem (a + 8#64 + BitVec.ofNat 64 (8 * i)) :=
      funext fun i => congrArg (load mem) (hoff i)
    rw [hmap]
    exact ih (a + 8#64)

/-! ## The processor -/

/-- Registers, the stack pointer and memory. -/
structure Cpu (R : Type*) where
  reg : R → BitVec 64
  rsp : BitVec 64
  mem : Mem

/-- Push a word. -/
def Cpu.push (c : Cpu R) (v : BitVec 64) : Cpu R :=
  { c with rsp := c.rsp - 8#64, mem := store c.mem (c.rsp - 8#64) v }

/-- Push words, the first one last. -/
def Cpu.pushes (c : Cpu R) (ws : List (BitVec 64)) : Cpu R := ws.foldr (fun w c => c.push w) c

/-- Pop a word into a register. -/
def Cpu.pop [DecidableEq R] (c : Cpu R) (r : R) : Cpu R :=
  { c with reg := Function.update c.reg r (load c.mem c.rsp), rsp := c.rsp + 8#64 }

/-- Push registers in order. -/
def pushAll (rs : List R) (c : Cpu R) : Cpu R := rs.foldl (fun c r => c.push (c.reg r)) c

/-- Pop registers in order. -/
def popAll [DecidableEq R] (rs : List R) (c : Cpu R) : Cpu R := rs.foldl Cpu.pop c

/-- **The stack holds these words** up to the base. -/
structure Holds (base : BitVec 64) (c : Cpu R) (ws : List (BitVec 64)) : Prop where
  fits : 8 * ws.length ≤ 2 ^ 64
  base : c.rsp + BitVec.ofNat 64 (8 * ws.length) = base
  words : Words c.mem c.rsp ws

variable {c c' : Cpu R}

theorem Holds.empty (c : Cpu R) : Holds c.rsp c [] :=
  ⟨Nat.zero_le _, BitVec.add_zero _, trivial⟩

/-- **A push puts a word in front.** -/
theorem Holds.push (h : Holds base c ws) (hfits : 8 * (ws.length + 1) ≤ 2 ^ 64) (v : BitVec 64) :
    Holds base (c.push v) (v :: ws) := by
  have hback : c.rsp - 8#64 + 8#64 = c.rsp := BitVec.sub_add_cancel ..
  refine ⟨hfits, ?_, load_store .., ?_⟩
  · rw [← h.base, List.length_cons, Nat.mul_succ, Nat.add_comm, BitVec.ofNat_add,
      ← BitVec.add_assoc]
    exact congrArg (· + BitVec.ofNat 64 (8 * ws.length)) hback
  · change Words (store c.mem (c.rsp - 8#64) v) (c.rsp - 8#64 + 8#64) ws
    rw [hback]
    refine h.words.congr fun k hk => store_of_far ?_
    have hoff : (c.rsp + BitVec.ofNat 64 k - (c.rsp - 8#64)).toNat = 8 + k := by bv_omega
    omega

/-- **Words that are pushed** are the words in front. -/
theorem Holds.pushes (h : Holds base c ws) (hfits : 8 * (rest.length + ws.length) ≤ 2 ^ 64) :
    Holds base (c.pushes rest) (rest ++ ws) := by
  induction rest with
  | nil => exact h
  | cons w rest ih =>
    rw [List.length_cons] at hfits
    refine (ih (by omega)).push ?_ w
    rw [List.length_append]
    omega

@[simp] theorem Cpu.pushes_reg (c : Cpu R) (ws : List (BitVec 64)) : (c.pushes ws).reg = c.reg := by
  induction ws with
  | nil => rfl
  | cons w ws ih => exact ih

/-- **A pop takes a word off.** -/
theorem Holds.pop [DecidableEq R] (h : Holds base c (w :: ws)) (r : R) :
    Holds base (c.pop r) ws ∧ (c.pop r).reg r = w ∧ ∀ q, q ≠ r → (c.pop r).reg q = c.reg q := by
  have hfits := h.fits
  rw [List.length_cons] at hfits
  refine ⟨⟨by omega, ?_, h.words.2⟩, ?_, fun q hq => Function.update_of_ne hq ..⟩
  · rw [← h.base, List.length_cons, Nat.mul_succ, Nat.add_comm (8 * ws.length), BitVec.ofNat_add,
      ← BitVec.add_assoc]
    rfl
  · rw [← h.words.1]
    exact Function.update_self ..

/-- **Registers that are pushed** are the words in front, the last one
first. -/
theorem Holds.pushAll (h : Holds base c ws) (rs : List R)
    (hfits : 8 * (ws.length + rs.length) ≤ 2 ^ 64) :
    Holds base (Stack.pushAll rs c) ((rs.map c.reg).reverse ++ ws) ∧
      (Stack.pushAll rs c).reg = c.reg := by
  induction rs generalizing c ws with
  | nil => exact ⟨h, rfl⟩
  | cons r rs ih =>
    rw [List.length_cons] at hfits
    obtain ⟨hrest, hreg⟩ := ih (h.push (by omega) (c.reg r)) (by rw [List.length_cons]; omega)
    refine ⟨?_, hreg⟩
    rw [List.map_cons, List.reverse_cons, List.append_assoc]
    exact hrest

/-- **Registers that are popped** hold the words that were in front. -/
theorem Holds.popAll [DecidableEq R] (h : Holds base c (ws ++ rest)) (rs : List R)
    (hlen : ws.length = rs.length) (hnd : rs.Nodup) :
    Holds base (Stack.popAll rs c) rest ∧ rs.map (Stack.popAll rs c).reg = ws ∧
      (∀ q, q ∉ rs → (Stack.popAll rs c).reg q = c.reg q) ∧
      (Stack.popAll rs c).mem = c.mem := by
  induction rs generalizing c ws with
  | nil =>
    obtain rfl := List.length_eq_zero_iff.1 hlen
    exact ⟨h, rfl, fun _ _ => rfl, rfl⟩
  | cons r rs ih =>
    cases ws with
    | nil => cases hlen
    | cons w ws =>
      rw [List.nodup_cons] at hnd
      obtain ⟨htop, hr, hothers⟩ := Holds.pop h r
      obtain ⟨hrest, hregs, hkept, hmem⟩ := ih htop (Nat.succ.inj hlen) hnd.2
      refine ⟨hrest, ?_, fun q hq => ?_, hmem⟩
      · rw [List.map_cons]
        exact congrArg₂ List.cons ((hkept r hnd.1).trans hr) hregs
      · rw [List.mem_cons, not_or] at hq
        exact (hkept q hq.2).trans (hothers q hq.1)

/-- Words are passed over. -/
theorem Holds.drop (h : Holds base c (ws ++ rest)) (n : ℕ) (hn : n = 8 * ws.length) :
    Holds base { c with rsp := c.rsp + BitVec.ofNat 64 n } rest := by
  subst hn
  induction ws generalizing c with
  | nil =>
    have hrsp : c.rsp + BitVec.ofNat 64 (8 * List.length ([] : List (BitVec 64))) = c.rsp :=
      BitVec.add_zero _
    rw [hrsp]
    exact h
  | cons w ws ih =>
    have hfits := h.fits
    have hrsp : c.rsp + BitVec.ofNat 64 (8 * (w :: ws).length) =
        c.rsp + 8#64 + BitVec.ofNat 64 (8 * ws.length) := by
      rw [List.length_cons, Nat.mul_succ, Nat.add_comm, BitVec.ofNat_add, ← BitVec.add_assoc]
    have hnext : Holds base { c with rsp := c.rsp + 8#64 } (ws ++ rest) := by
      refine ⟨?_, ?_, h.words.2⟩
      · rw [List.cons_append, List.length_cons] at hfits
        omega
      · rw [← h.base, List.cons_append, List.length_cons, Nat.mul_succ,
          Nat.add_comm (8 * (ws ++ rest).length), BitVec.ofNat_add, ← BitVec.add_assoc]
    rw [hrsp]
    exact ih hnext

/-- The words are still there where the bytes are. -/
theorem Holds.congr (h : Holds base c ws) (hrsp : c'.rsp = c.rsp)
    (hmem : ∀ k < 8 * ws.length,
      c'.mem (c.rsp + BitVec.ofNat 64 k) = c.mem (c.rsp + BitVec.ofNat 64 k)) :
    Holds base c' ws := by
  refine ⟨h.fits, by rw [hrsp, h.base], ?_⟩
  rw [hrsp]
  exact h.words.congr hmem

/-- Any words are the stack up to where they end. -/
theorem Holds.loads (c : Cpu R) (n : ℕ) (hn : 8 * n ≤ 2 ^ 64) :
    Holds (c.rsp + BitVec.ofNat 64 (8 * n)) c
      ((List.range n).map fun i => load c.mem (c.rsp + BitVec.ofNat 64 (8 * i))) := by
  refine ⟨?_, ?_, words_loads c.mem c.rsp n⟩
  · rwa [List.length_map, List.length_range]
  · rw [List.length_map, List.length_range]

end Stack

end Kos
