import Kos.Common.ByteMem
import Kos.Common.Registry
import Kos.Common.Run
import Kos.Idt.Model
import Mathlib.Data.List.FinRange
/-!
# Idt — the table the processor reads

`idt_set_gate` fills in a packed structure of 16 bytes, the address of
the handler in three pieces. The processor takes the bytes of a vector
apart again. What it finds is the handler that was set last, and it finds
no gate present where none was set.
-/

namespace Kos

namespace Idt

/-- `IDT_ENTRIES`. -/
abbrev idtEntries : ℕ := 256

/-- `sizeof(struct idt_entry)`. -/
abbrev idtEntrySize : ℕ := 16

/-- `idt_set_gate`, on the bytes of `idt`; the structure is packed. -/
def idtSetGate (idt : ByteMem) (num : UInt8) (handler : UInt64) (typeAttr : UInt8) : ByteMem :=
  let addr := handler.toNat
  let entry := idtEntrySize * num.toNat
  let idt := idt.store entry 2 (addr &&& 0xFFFF)  -- `offset_low`
  let idt := idt.store (entry + 6) 2 ((addr >>> 16) &&& 0xFFFF)  -- `offset_mid`
  let idt := idt.store (entry + 8) 4 (addr >>> 32)  -- `offset_high`
  let idt := idt.store (entry + 2) 2 0x08  -- `selector`
  let idt := idt.store (entry + 4) 1 0  -- `ist`
  let idt := idt.store (entry + 5) 1 typeAttr.toNat  -- `type_attr`
  idt.store (entry + 12) 4 0  -- `zero`

/-- The type of the gates `idt_init` makes. -/
abbrev gateType : UInt8 := 0x8E

/-- `idt_init`, up to where the table is loaded; `stub` has the addresses
of the stubs. That of the system call is not used. -/
def idtInit (stub : Path → UInt64) (idt : ByteMem) : ByteMem :=
  let idt := idt.fill 0 (idtEntrySize * idtEntries) 0
  let idt := (List.finRange 32).foldl
    (fun idt v => idtSetGate idt (UInt8.ofNat v.val) (stub (.isr v)) gateType) idt
  (List.finRange 16).foldl
    (fun idt n => idtSetGate idt (UInt8.ofNat (32 + n.val)) (stub (.irq n)) gateType) idt

/-- `idtp.limit`. -/
abbrev idtLimit : ℕ := idtEntrySize * idtEntries - 1

/-! ## The processor -/

/-- A gate, as the processor understands it. -/
structure Gate where
  offset : ℕ
  selector : ℕ
  ist : ℕ
  type : ℕ
  dpl : ℕ
  present : Bool
  deriving DecidableEq, Repr

/-- The gate in 16 bytes: the offset in three pieces, five reserved bits
beside the stack table index, and one beside the type. -/
def gateAt (idt : ByteMem) (entry : ℕ) : Gate where
  offset := idt.load entry 2 + 2 ^ 16 * idt.load (entry + 6) 2 + 2 ^ 32 * idt.load (entry + 8) 4
  selector := idt.load (entry + 2) 2
  ist := idt.load (entry + 4) 1 % 8
  type := idt.load (entry + 5) 1 % 16
  dpl := idt.load (entry + 5) 1 / 32 % 4
  present := idt.load (entry + 5) 1 / 128 = 1

/-- What the processor looks up for a vector; past the limit there is
nothing. -/
def lookup (limit : ℕ) (idt : ByteMem) (v : ℕ) : Option Gate :=
  if 16 * v + 15 ≤ limit then some (gateAt idt (16 * v)) else none

/-- The gate for a handler. -/
def handlerGate (handler : UInt64) (typeAttr : UInt8) : Gate where
  offset := handler.toNat
  selector := 0x08
  ist := 0
  type := typeAttr.toNat % 16
  dpl := typeAttr.toNat / 32 % 4
  present := typeAttr.toNat / 128 = 1

/-- No gate. -/
def noGate : Gate := ⟨0, 0, 0, 0, 0, false⟩

variable {idt idt' : ByteMem} {num v : UInt8} {handler : UInt64} {typeAttr : UInt8} {entry : ℕ}

/-! ## One entry -/

/-- A gate is read off its 16 bytes. -/
theorem gateAt_congr (h : ∀ x, entry ≤ x → x < entry + 16 → idt x = idt' x) :
    gateAt idt entry = gateAt idt' entry := by
  have hload : ∀ k n, k + n ≤ 16 → idt.load (entry + k) n = idt'.load (entry + k) n := by
    intro k n hk
    exact ByteMem.load_congr fun x h1 h2 => h x (by omega) (by omega)
  have hlow : idt.load entry 2 = idt'.load entry 2 := hload 0 2 (by decide)
  rw [gateAt, gateAt, hlow, hload 2 2 (by decide), hload 4 1 (by decide), hload 5 1 (by decide),
    hload 6 2 (by decide), hload 8 4 (by decide)]

/-- The fields of the entry of a vector, in the order they are written in. -/
def gateFields (num : UInt8) (handler : UInt64) (typeAttr : UInt8) : List ByteMem.Field :=
  let entry := idtEntrySize * num.toNat
  [(entry, 2, handler.toNat &&& 0xFFFF), (entry + 6, 2, (handler.toNat >>> 16) &&& 0xFFFF),
    (entry + 8, 4, handler.toNat >>> 32), (entry + 2, 2, 0x08), (entry + 4, 1, 0),
    (entry + 5, 1, typeAttr.toNat), (entry + 12, 4, 0)]

theorem idtSetGate_eq (idt : ByteMem) (num : UInt8) (handler : UInt64) (typeAttr : UInt8) :
    idtSetGate idt num handler typeAttr = idt.stores (gateFields num handler typeAttr) := rfl

theorem gateFields_apart (num : UInt8) (handler : UInt64) (typeAttr : UInt8) :
    (gateFields num handler typeAttr).Pairwise ByteMem.Field.Apart := by
  simp only [gateFields, ByteMem.Field.Apart, List.pairwise_cons, List.forall_mem_cons,
    List.not_mem_nil, false_imp_iff, implies_true, List.Pairwise.nil, and_true]
  omega

/-- **Nothing but the entry is written.** -/
theorem idtSetGate_of_not_mem {x : ℕ}
    (hx : ¬ (idtEntrySize * num.toNat ≤ x ∧ x < idtEntrySize * num.toNat + 16)) :
    idtSetGate idt num handler typeAttr x = idt x := by
  rw [idtSetGate_eq, ByteMem.stores_of_not_mem]
  simp only [gateFields, List.forall_mem_cons, List.not_mem_nil, false_imp_iff, implies_true,
    and_true]
  omega

/-- **The entry that was written is the gate of the handler.** -/
theorem gateAt_idtSetGate_self (idt : ByteMem) (num : UInt8) (handler : UInt64) (typeAttr : UInt8) :
    gateAt (idtSetGate idt num handler typeAttr) (idtEntrySize * num.toNat) =
      handlerGate handler typeAttr := by
  have hfield : ∀ f ∈ gateFields num handler typeAttr, f.2.2 < 2 ^ (8 * f.2.1) →
      (idtSetGate idt num handler typeAttr).load f.1 f.2.1 = f.2.2 := fun f hf hlt =>
    ByteMem.load_stores (gateFields_apart num handler typeAttr) hf hlt
  have haddr := handler.toNat_lt
  have hattr := typeAttr.toNat_lt
  have hmask : ∀ n : ℕ, n &&& 0xFFFF = n % 2 ^ 16 := fun n => Nat.and_two_pow_sub_one_eq_mod n 16
  simp only [gateFields, List.forall_mem_cons, List.not_mem_nil, false_imp_iff, implies_true,
    and_true, hmask, Nat.shiftRight_eq_div_pow] at hfield
  obtain ⟨hlow, hmid, hhigh, hselector, hist, htype, -⟩ := hfield
  rw [gateAt, hlow (by omega), hmid (by omega), hhigh (by omega), hselector (by decide),
    hist (by decide), htype (by omega), handlerGate]
  congr 1
  omega

/-! ## The table -/

/-- A call of `idt_set_gate`: the vector, the handler and the type. -/
abbrev SetGate : Type := UInt8 × UInt64 × UInt8

/-- The call. -/
def setGate (idt : ByteMem) (c : SetGate) : ByteMem := idtSetGate idt c.1 c.2.1 c.2.2

/-- **One call sets one gate.** -/
theorem gateAt_setGate (idt : ByteMem) (c : SetGate) (v : UInt8) :
    gateAt (setGate idt c) (16 * v.toNat) =
      if c.1 = v then handlerGate c.2.1 c.2.2 else gateAt idt (16 * v.toNat) := by
  split
  · rename_i h
    subst h
    exact gateAt_idtSetGate_self idt c.1 c.2.1 c.2.2
  · rename_i h
    have hne : c.1.toNat ≠ v.toNat := fun heq => h (UInt8.toNat_inj.1 heq)
    refine gateAt_congr fun x h1 h2 => idtSetGate_of_not_mem ?_
    simp only [idtEntrySize]
    omega

/-- **The gate of a vector is the one set last**, or that from before. -/
theorem gateAt_run (idt : ByteMem) (calls : List SetGate) (v : UInt8) :
    gateAt (runFrom setGate idt calls) (16 * v.toNat) =
      ((Registry.latest calls v).map fun c => handlerGate c.1 c.2).getD
        (gateAt idt (16 * v.toNat)) := by
  induction calls using List.reverseRecOn with
  | nil => rfl
  | append_singleton calls c ih =>
    rw [runFrom_append, Registry.latest_concat]
    change gateAt (setGate _ c) _ = _
    rw [gateAt_setGate, ih]
    split <;> rfl

/-- Nothing is written outside of the table. -/
theorem run_of_le (idt : ByteMem) (calls : List SetGate) {x : ℕ}
    (hx : idtEntrySize * idtEntries ≤ x) : runFrom setGate idt calls x = idt x := by
  refine runFrom_invariant (P := fun idt' : ByteMem => idt' x = idt x) (fun idt' c h => ?_)
    calls rfl
  have hnum := c.1.toNat_lt
  refine (idtSetGate_of_not_mem ?_).trans h
  simp only [idtEntrySize, idtEntries] at hx ⊢
  omega

/-- The calls of `idt_init`. -/
def initCalls (stub : Path → UInt64) : List SetGate :=
  (List.finRange 32).map (fun v => (UInt8.ofNat v.val, stub (.isr v), gateType)) ++
    (List.finRange 16).map (fun n => (UInt8.ofNat (32 + n.val), stub (.irq n), gateType))

theorem idtInit_eq (stub : Path → UInt64) (idt : ByteMem) :
    idtInit stub idt =
      runFrom setGate (idt.fill 0 (idtEntrySize * idtEntries) 0) (initCalls stub) := by
  rw [initCalls, runFrom_append, runFrom, runFrom, List.foldl_map, List.foldl_map]
  rfl

/-- The path a vector leads to. -/
def path (v : ℕ) : Option Path :=
  if h : v < 32 then some (.isr ⟨v, h⟩)
  else if h : v < 48 then some (.irq ⟨v - 32, by omega⟩) else none

/-- **`idt_init` sets the gates of the paths.** -/
theorem latest_initCalls (stub : Path → UInt64) (v : UInt8) :
    Registry.latest (initCalls stub) v = (path v.toNat).map fun p => (stub p, gateType) := by
  have hkeys : (initCalls stub).map Prod.fst = (List.range 48).map UInt8.ofNat := by
    rw [initCalls, List.map_append, List.map_map, List.map_map]
    rfl
  have hnd : ((initCalls stub).map Prod.fst).Nodup := by
    rw [hkeys]
    decide
  have hself : UInt8.ofNat v.toNat = v := UInt8.ofNat_toNat
  unfold path
  split
  · rename_i h
    refine Registry.latest_of_mem hnd (List.mem_append_left _ ?_)
    exact List.mem_map.2 ⟨⟨v.toNat, h⟩, List.mem_finRange _, by rw [hself]⟩
  · split
    · rename_i h32 h48
      refine Registry.latest_of_mem hnd (List.mem_append_right _ ?_)
      have hadd : 32 + (v.toNat - 32) = v.toNat := by omega
      exact List.mem_map.2 ⟨⟨v.toNat - 32, by omega⟩, List.mem_finRange _, by rw [hadd, hself]⟩
    · rename_i h32 h48
      refine Registry.latest_eq_none fun hk => ?_
      rw [hkeys] at hk
      obtain ⟨n, hn, rfl⟩ := List.mem_map.1 hk
      rw [List.mem_range] at hn
      rw [UInt8.toNat_ofNat_of_lt' (hn.trans (by decide))] at h48
      exact h48 hn

/-- A table of zeros has no gate present. -/
theorem gateAt_fill (idt : ByteMem) (v : UInt8) :
    gateAt (idt.fill 0 (idtEntrySize * idtEntries) 0) (16 * v.toNat) = noGate := by
  have hv := v.toNat_lt
  have hzero : gateAt (fun _ => 0) (16 * v.toNat) = noGate := by
    simp [gateAt, ByteMem.load, noGate]
  rw [← hzero]
  refine gateAt_congr fun x h1 h2 => if_pos ?_
  simp only [idtEntrySize, idtEntries]
  omega

/-- **The table after `idt_init` and any calls of `idt_set_gate`.** For
each vector the processor finds the handler set last: its address whole
again from the three pieces, in the kernel's segment, with no stack of its
own, and present and of the privilege the type says. Where no call was
made since, it finds the stub that pushes the vector, and above 47
nothing that is present. No byte behind the table is written. -/
theorem gates_found (stub : Path → UInt64) (idt : ByteMem) (calls : List SetGate) :
    let table := runFrom setGate (idtInit stub idt) calls
    (∀ v : UInt8, lookup idtLimit table v.toNat = some
      (match Registry.latest calls v with
        | some c => handlerGate c.1 c.2
        | none => ((path v.toNat).map fun p => handlerGate (stub p) gateType).getD noGate)) ∧
      ∀ k, table (idtEntrySize * idtEntries + k) = idt (idtEntrySize * idtEntries + k) := by
  intro table
  refine ⟨fun v => ?_, fun k => ?_⟩
  · have hv := v.toNat_lt
    have hlimit : 16 * v.toNat + 15 ≤ idtLimit := by
      simp only [idtLimit, idtEntrySize, idtEntries]
      omega
    rw [lookup, if_pos hlimit, gateAt_run, idtInit_eq, gateAt_run, gateAt_fill, latest_initCalls,
      Option.map_map]
    cases Registry.latest calls v <;> rfl
  · have hx : idtEntrySize * idtEntries ≤ idtEntrySize * idtEntries + k := Nat.le_add_right ..
    calc table _ = idtInit stub idt _ := run_of_le _ calls hx
      _ = idt.fill 0 (idtEntrySize * idtEntries) 0 _ := by rw [idtInit_eq, run_of_le _ _ hx]
      _ = idt _ := ByteMem.fill_of_not_mem fun hc => absurd hc.2 (by omega)

end Idt

end Kos
