import Kos.Common.PageWalk
/-!
# Boot — the tables `setup_paging` builds

`setup_paging` runs before paging, on 32-bit registers, and writes the
low half of a table word at a time. The high halves are what the loader
left in `.bss`, which is zero, so a store through `edi` sets a whole
word: that is the one fact the code is read by. Two windows of 1 GB go
through the same tables, the first 2 MB of each page by page and the
rest by large pages.
-/

namespace Kos

namespace Boot

/-! ## The processor before long mode -/

/-- The registers `setup_paging` uses. -/
inductive Reg
  | eax
  | ecx
  | edi
  deriving DecidableEq, Repr

/-- Registers of 32 bits, the base of the tables, and memory. -/
structure Machine where
  reg : Reg → ℕ
  cr3 : ℕ
  mem : ByteMem

/-- The instructions that go straight on. `store` is `mov [edi], eax`. -/
inductive Instr
  | mov (dst : Reg) (imm : ℕ)
  | xor (dst src : Reg)
  | or (dst : Reg) (imm : ℕ)
  | add (dst : Reg) (imm : ℕ)
  | store
  | movCr3 (src : Reg)
  deriving DecidableEq, Repr

/-- Replace one register. -/
def Machine.setReg (m : Machine) (r : Reg) (v : ℕ) : Machine :=
  { m with reg := Function.update m.reg r (v % 2 ^ 32) }

@[simp] theorem Machine.setReg_self (m : Machine) (r : Reg) (v : ℕ) :
    (m.setReg r v).reg r = v % 2 ^ 32 := Function.update_self ..

@[simp] theorem Machine.setReg_of_ne (m : Machine) {r q : Reg} (v : ℕ) (h : q ≠ r) :
    (m.setReg r v).reg q = m.reg q := Function.update_of_ne h ..

/-- One instruction. -/
def exec (m : Machine) : Instr → Machine
  | .mov dst imm => m.setReg dst imm
  | .xor dst src => m.setReg dst (m.reg dst ^^^ m.reg src)
  | .or dst imm => m.setReg dst (m.reg dst ||| imm)
  | .add dst imm => m.setReg dst (m.reg dst + imm)
  | .store => { m with mem := m.mem.store (m.reg .edi) 4 (m.reg .eax) }
  | .movCr3 src => { m with cr3 := m.reg src }

/-- Instructions in order. -/
def run (code : List Instr) (m : Machine) : Machine := code.foldl exec m

/-- `rep stosd`, with this much left in `ecx`. -/
def repStosd : ℕ → Machine → Machine
  | 0, m => m
  | n + 1, m =>
    let m := { m with mem := m.mem.store (m.reg .edi) 4 (m.reg .eax) }
    repStosd n ((m.setReg .edi (m.reg .edi + 4)).setReg .ecx n)

/-- The rounds of a loop, as many at most. -/
def rounds (body : List Instr) : ℕ → Machine → Machine
  | 0, m => m
  | n + 1, m =>
    let m := run body m
    let m := m.setReg .ecx (m.reg .ecx + (2 ^ 32 - 1))
    if m.reg .ecx = 0 then m else rounds body n m

/-- `label:`, a body that leaves `ecx` alone, and `loop label`. -/
def loop (body : List Instr) (m : Machine) : Machine := rounds body (2 ^ 32) m

/-! ## `setup_paging` -/

/-- `PRESENT`. -/
abbrev present : ℕ := 0x001

/-- `WRITABLE`. -/
abbrev writable : ℕ := 0x002

/-- `HUGE_PAGE`. -/
abbrev hugePage : ℕ := 0x080

/-- The tables lie one behind the other, from `global_boot_pml4` on. -/
def globalBootPdpt (pml4 : ℕ) : ℕ := pml4 + 512 * 8

def globalBootPd (pml4 : ℕ) : ℕ := globalBootPdpt pml4 + 512 * 8

def globalBootPt (pml4 : ℕ) : ℕ := globalBootPd pml4 + 512 * 8

/-- `mov edi, place; mov eax, table; or eax, PRESENT | WRITABLE; mov [edi], eax`. -/
def linkTable (place table : ℕ) : List Instr :=
  [.mov .edi place, .mov .eax table, .or .eax (present ||| writable), .store]

/-- `mov [edi], eax; add eax, step; add edi, 8`. -/
def fillTable (step : ℕ) : List Instr := [.store, .add .eax step, .add .edi 8]

/-- The body of `.setup_huge`. -/
def setupHuge : List Instr := fillTable 0x200000

/-- The body of `.setup_4k`. -/
def setup4k : List Instr := fillTable 0x1000

/-- The first lines. The count is one of dwords, so they clear two tables. -/
def clearTables (pml4 : ℕ) (m : Machine) : Machine :=
  let m := run [.mov .edi pml4, .mov .ecx (512 * 4), .xor .eax .eax] m
  repStosd (m.reg .ecx) m

/-- The words that link a table. -/
def linkTables (pml4 : ℕ) (m : Machine) : Machine :=
  let m := run (linkTable pml4 (globalBootPdpt pml4)) m
  let m := run (linkTable (pml4 + 256 * 8) (globalBootPdpt pml4)) m
  let m := run (linkTable (globalBootPdpt pml4) (globalBootPd pml4)) m
  run (linkTable (globalBootPd pml4) (globalBootPt pml4)) m

/-- The large pages. -/
def fillPd (pml4 : ℕ) (m : Machine) : Machine :=
  let m := run [.mov .edi (globalBootPd pml4 + 8), .mov .eax 0x200000,
    .or .eax (present ||| writable ||| hugePage), .mov .ecx 511] m
  loop setupHuge m

/-- The pages of the first 2 MB. -/
def fillPt (pml4 : ℕ) (m : Machine) : Machine :=
  let m := run [.mov .edi (globalBootPt pml4), .xor .eax .eax, .or .eax (present ||| writable),
    .mov .ecx 512] m
  loop setup4k m

/-- `setup_paging`, with the tables from `pml4` on. The direction flag is
clear. -/
def setupPaging (pml4 : ℕ) (m : Machine) : Machine :=
  run [.mov .eax pml4, .movCr3 .eax]
    (fillPt pml4 (fillPd pml4 (linkTables pml4 (clearTables pml4 m))))

/-! ## Words of the tables -/

/-- **The words from `base` on**, whose high halves are zero. -/
def Holds (mem : ByteMem) (base : ℕ) (f : ℕ → ℕ) : Prop :=
  ∀ i < 2048, mem.load (base + 8 * i) 8 = f i ∧ f i < 2 ^ 32

variable {mem : ByteMem} {m : Machine} {base : ℕ} {f : ℕ → ℕ} {v : ℕ}

/-- A word is its two halves. -/
theorem load_halves (mem : ByteMem) (a : ℕ) :
    mem.load a 8 = mem.load a 4 + 2 ^ 32 * mem.load (a + 4) 4 := by
  simp only [ByteMem.load, Nat.add_assoc, Nat.reduceAdd]
  omega

theorem load_zero {a n : ℕ} (h : ∀ x, a ≤ x → x < a + n → mem x = 0) : mem.load a n = 0 := by
  induction n generalizing a with
  | zero => rfl
  | succ n ih =>
    rw [ByteMem.load, h a le_rfl (by omega), ih fun x h1 h2 => h x (by omega) (by omega)]
    rfl

/-- **A store of a low half sets the word.** -/
theorem Holds.store (h : Holds mem base f) (i : ℕ) (hv : v < 2 ^ 32) :
    Holds (mem.store (base + 8 * i) 4 v) base (Function.update f i v) := by
  intro j hj
  obtain ⟨hword, hlt⟩ := h j hj
  by_cases hji : j = i
  · rw [hji, Function.update_self]
    rw [hji, load_halves] at hword
    rw [hji] at hlt
    have hlow : (mem.store (base + 8 * i) 4 v).load (base + 8 * i) 4 = v :=
      ByteMem.load_store_of_lt hv
    have hhigh : (mem.store (base + 8 * i) 4 v).load (base + 8 * i + 4) 4 =
        mem.load (base + 8 * i + 4) 4 :=
      ByteMem.load_store_of_disjoint (by omega)
    rw [load_halves, hlow, hhigh]
    omega
  · rw [Function.update_of_ne hji, ByteMem.load_store_of_disjoint (by omega)]
    exact ⟨hword, hlt⟩

theorem Holds.congr {g : ℕ → ℕ} (h : Holds mem base f) (hfg : ∀ i < 2048, f i = g i) :
    Holds mem base g := by
  intro i hi
  rw [← hfg i hi]
  exact h i hi

/-- The words the walk reads. -/
theorem Holds.entry {w k : ℕ} (h : Holds mem base f) (table j : ℕ) (htable : table = base + 8 * j)
    (hj : j + w / 2 ^ k % 512 < 2048) :
    PageWalk.entry mem table w k = f (j + w / 2 ^ k % 512) := by
  rw [← (h _ hj).1, PageWalk.entry, htable, Nat.mul_add, Nat.add_assoc]

/-! ## What the code does to them -/

/-- Clearing writes zeros over zeros. -/
theorem repStosd_zero {x : ℕ} (n : ℕ) (hm : m.reg .eax = 0) (hx : m.mem x = 0) :
    (repStosd n m).mem x = 0 := by
  induction n generalizing m with
  | zero => exact hx
  | succ n ih =>
    refine ih hm ?_
    change m.mem.store (m.reg .edi) 4 (m.reg .eax) x = 0
    rw [hm, ByteMem.store]
    split
    · rw [Nat.zero_div]
      rfl
    · exact hx

/-- **A table is linked.** -/
theorem Holds.link (h : Holds m.mem base f) (place table i : ℕ) (hi : place = base + 8 * i)
    (hplace : place < 2 ^ 32) (htable : table < 2 ^ 32) (haligned : 4096 ∣ table) :
    Holds (run (linkTable place table) m).mem base (Function.update f i (table + 3)) := by
  obtain ⟨q, rfl⟩ := haligned
  have hor : 4096 * q ||| (present ||| writable) = 4096 * q + 3 :=
    two_pow_mul_lor (k := 12) (by decide)
  have hword : 4096 * q + 3 < 2 ^ 32 := by omega
  have hmem : (run (linkTable place (4096 * q)) m).mem = m.mem.store place 4 (4096 * q + 3) := by
    change m.mem.store (place % 2 ^ 32) 4
      ((4096 * q % 2 ^ 32 ||| (present ||| writable)) % 2 ^ 32) = _
    rw [Nat.mod_eq_of_lt hplace, Nat.mod_eq_of_lt htable, hor, Nat.mod_eq_of_lt hword]
  rw [hmem, hi]
  exact h.store i hword

/-- A round of a filling loop, and `loop`. -/
def fillRound (step : ℕ) (m : Machine) : Machine :=
  (run (fillTable step) m).setReg .ecx ((run (fillTable step) m).reg .ecx + (2 ^ 32 - 1))

theorem rounds_succ (step n : ℕ) (m : Machine) :
    rounds (fillTable step) (n + 1) m =
      if (fillRound step m).reg .ecx = 0 then fillRound step m
      else rounds (fillTable step) n (fillRound step m) := rfl

theorem reg_run_fillTable (step : ℕ) (m : Machine) :
    (run (fillTable step) m).reg .eax = (m.reg .eax + step) % 2 ^ 32 ∧
      (run (fillTable step) m).reg .edi = (m.reg .edi + 8) % 2 ^ 32 ∧
      (run (fillTable step) m).reg .ecx = m.reg .ecx := ⟨rfl, rfl, rfl⟩

/-- What a round does. -/
theorem fillRound_spec (step : ℕ) {a place k : ℕ} (heax : m.reg .eax = a) (hedi : m.reg .edi = place)
    (hecx : m.reg .ecx = k + 1) (hk : k < 2 ^ 32) :
    (fillRound step m).mem = m.mem.store place 4 a ∧
      (fillRound step m).reg .eax = (a + step) % 2 ^ 32 ∧
      (fillRound step m).reg .edi = (place + 8) % 2 ^ 32 ∧ (fillRound step m).reg .ecx = k := by
  obtain ⟨heax', hedi', hecx'⟩ := reg_run_fillTable step m
  subst heax hedi
  refine ⟨rfl, ?_, ?_, ?_⟩
  · rw [fillRound, Machine.setReg_of_ne _ _ (by decide), heax']
  · rw [fillRound, Machine.setReg_of_ne _ _ (by decide), hedi']
  · rw [fillRound, Machine.setReg_self, hecx', hecx]
    omega

/-- **A filling loop**, with `k + 1` in `ecx`: it sets as many words, from
`i` on. -/
theorem Holds.rounds {step a i k n : ℕ} (h : Holds m.mem base f) (hkn : k < n) (hn : n ≤ 2 ^ 32)
    (hecx : m.reg .ecx = k + 1) (hedi : m.reg .edi = base + 8 * i) (heax : m.reg .eax = a)
    (hplace : base + 8 * (i + k) < 2 ^ 32) (hword : a + step * k < 2 ^ 32) :
    Holds (Boot.rounds (fillTable step) n m).mem base fun j =>
      if i ≤ j ∧ j ≤ i + k then a + step * (j - i) else f j := by
  induction k generalizing m n a i f with
  | zero =>
    obtain ⟨n, rfl⟩ : ∃ n', n = n' + 1 := ⟨n - 1, by omega⟩
    obtain ⟨hmem, -, -, hzero⟩ := fillRound_spec step heax hedi hecx (by omega)
    rw [rounds_succ, if_pos hzero, hmem]
    refine (h.store i (by omega)).congr fun j _ => ?_
    by_cases hj : j = i
    · rw [hj, Function.update_self, if_pos (by omega), Nat.sub_self, Nat.mul_zero, Nat.add_zero]
    · rw [Function.update_of_ne hj, if_neg (by omega)]
  | succ k ih =>
    obtain ⟨n, rfl⟩ : ∃ n', n = n' + 1 := ⟨n - 1, by omega⟩
    obtain ⟨hmem, heax', hedi', hleft⟩ := fillRound_spec step heax hedi hecx (by omega)
    have hsucc : step * (k + 1) = step + step * k := by
      rw [Nat.mul_succ, Nat.add_comm]
    have hnext := h.store i (v := a) (by omega)
    rw [← hmem] at hnext
    rw [rounds_succ, if_neg (by omega)]
    have hrest : Holds (Boot.rounds (fillTable step) n (fillRound step m)).mem base fun j =>
        if i + 1 ≤ j ∧ j ≤ i + 1 + k then a + step + step * (j - (i + 1))
        else Function.update f i a j :=
      ih hnext (by omega) (by omega) hleft (by omega) (by omega) (by omega) (by omega)
    refine hrest.congr fun j _ => ?_
    by_cases hj : j = i
    · rw [hj, Function.update_self, if_neg (by omega), if_pos (by omega), Nat.sub_self, Nat.mul_zero,
        Nat.add_zero]
    · rw [Function.update_of_ne hj]
      by_cases hin : i + 1 ≤ j ∧ j ≤ i + 1 + k
      · obtain ⟨d, rfl⟩ := Nat.exists_eq_add_of_le hin.1
        have hoff : i + 1 + d - i = d + 1 := by omega
        rw [if_pos hin, if_pos (by omega), Nat.add_sub_cancel_left, hoff, Nat.mul_succ]
        omega
      · rw [if_neg hin, if_neg (by omega)]

/-! ## The tables -/

/-- **The words of the tables.** The second runs over the PDPT, the third
over the PD and the last over the PT. -/
def bootWord (pml4 i : ℕ) : ℕ :=
  if i = 0 ∨ i = 256 then globalBootPdpt pml4 + 3
  else if i = 512 then globalBootPd pml4 + 3
  else if i = 1024 then globalBootPt pml4 + 3
  else if 1024 < i ∧ i < 1536 then 0x200000 * (i - 1024) + 0x83
  else if 1536 ≤ i then 0x1000 * (i - 1536) + 3
  else 0

/-- Where the tables are. -/
theorem tables_at (base : ℕ) :
    globalBootPdpt base = base + 8 * 512 ∧ globalBootPd base = base + 8 * 1024 ∧
      globalBootPt base = base + 8 * 1536 := by
  unfold globalBootPt globalBootPd globalBootPdpt
  omega

theorem holds_clearTables (hbss : ∀ x, base ≤ x → x < base + 4 * 4096 → m.mem x = 0) :
    Holds (clearTables base m).mem base fun _ => 0 := by
  have hzero : ∀ n x, base ≤ x → x < base + 4 * 4096 →
      (repStosd n (run [.mov .edi base, .mov .ecx (512 * 4), .xor .eax .eax] m)).mem x = 0 := by
    intro n x h1 h2
    refine repStosd_zero n ?_ (hbss x h1 h2)
    change (m.reg .eax ^^^ m.reg .eax) % 2 ^ 32 = 0
    rw [Nat.xor_self, Nat.zero_mod]
  intro i hi
  rw [clearTables]
  exact ⟨load_zero fun x h1 h2 => hzero _ x (by omega) (by omega), Nat.two_pow_pos 32⟩

theorem run_movCr3 (a : ℕ) (m : Machine) :
    (run [.mov .eax a, .movCr3 .eax] m).mem = m.mem ∧
      (run [.mov .eax a, .movCr3 .eax] m).cr3 = a % 2 ^ 32 := ⟨rfl, rfl⟩

section Tables

variable (halign : 4096 ∣ base) (hfits : base + 4 * 4096 ≤ 2 ^ 32)
include halign hfits

theorem Holds.linkTables (h : Holds m.mem base f) :
    Holds (Boot.linkTables base m).mem base
      (Function.update (Function.update (Function.update (Function.update f
        0 (globalBootPdpt base + 3)) 256 (globalBootPdpt base + 3)) 512 (globalBootPd base + 3))
        1024 (globalBootPt base + 3)) := by
  obtain ⟨hpdpt, hpd, hpt⟩ := tables_at base
  have h0 := h.link base (globalBootPdpt base) 0 (by omega) (by omega) (by omega) (by omega)
  have h256 := h0.link (base + 256 * 8) (globalBootPdpt base) 256 (by omega) (by omega) (by omega)
    (by omega)
  have h512 := h256.link _ (globalBootPd base) 512 hpdpt (by omega) (by omega) (by omega)
  exact h512.link _ (globalBootPt base) 1024 hpd (by omega) (by omega) (by omega)

theorem Holds.fillPd (h : Holds m.mem base f) :
    Holds (Boot.fillPd base m).mem base fun j =>
      if 1025 ≤ j ∧ j ≤ 1025 + 510 then 0x200083 + 0x200000 * (j - 1025) else f j := by
  obtain ⟨-, hpd, -⟩ := tables_at base
  refine Holds.rounds (m := run _ m) h (by decide) (le_refl _) rfl ?_ ?_ (by omega) (by decide)
  · change (globalBootPd base + 8) % 2 ^ 32 = _
    omega
  · change (0x200000 % 2 ^ 32 ||| (present ||| writable ||| hugePage)) % 2 ^ 32 = 0x200083
    decide

theorem Holds.fillPt (h : Holds m.mem base f) :
    Holds (Boot.fillPt base m).mem base fun j =>
      if 1536 ≤ j ∧ j ≤ 1536 + 511 then 3 + 0x1000 * (j - 1536) else f j := by
  obtain ⟨-, -, hpt⟩ := tables_at base
  refine Holds.rounds (m := run _ m) h (by decide) (le_refl _) rfl ?_ ?_ (by omega) (by decide)
  · change globalBootPt base % 2 ^ 32 = _
    omega
  · change ((m.reg .eax ^^^ m.reg .eax) % 2 ^ 32 ||| (present ||| writable)) % 2 ^ 32 = 3
    rw [Nat.xor_self]
    rfl

/-- **`setup_paging` builds these tables.** -/
theorem setupPaging_words (hbss : ∀ x, base ≤ x → x < base + 4 * 4096 → m.mem x = 0) :
    Holds (setupPaging base m).mem base (bootWord base) := by
  have hcleared := holds_clearTables hbss
  have hlinked := hcleared.linkTables halign hfits
  rw [setupPaging, (run_movCr3 ..).1]
  refine ((hlinked.fillPd halign hfits).fillPt halign hfits).congr fun j hj => ?_
  unfold bootWord
  simp only [Function.update_apply]
  split_ifs <;> omega

/-! ## The walk -/

/-- **An address of either window** goes through the tables like its place
in the window. -/
theorem walk_bootWord {w : ℕ} (h : Holds mem base (bootWord base)) (hv : v < 2 ^ 30)
    (hw : w = v ∨ w = 0xFFFF800000000000 + v) :
    PageWalk.walk mem base w = some ⟨v, true, if v < 2 ^ 21 then 2 ^ 12 else 2 ^ 21⟩ := by
  obtain ⟨hpdpt, hpd, hpt⟩ := tables_at base
  have hlink4 : PageWalk.Links (PageWalk.entry mem base w 39) (globalBootPdpt base) := by
    refine ⟨?_, by omega, by omega⟩
    rw [h.entry base 0 (by omega) (by omega), bootWord, if_pos (by omega)]
  have hlink3 : PageWalk.Links (PageWalk.entry mem (globalBootPdpt base) w 30)
      (globalBootPd base) := by
    refine ⟨?_, by omega, by omega⟩
    rw [h.entry _ 512 hpdpt (by omega), bootWord, if_neg (by omega), if_pos (by omega)]
  have hentry2 := @Holds.entry mem base (bootWord base) w 21 h _ 1024 hpd (by omega)
  rw [PageWalk.walk_link halign (by omega) hlink4, PageWalk.walkPdpt_link hlink3]
  by_cases hsmall : v < 2 ^ 21
  · -- the first word of the PD links the PT
    have hlink2 : PageWalk.Links (PageWalk.entry mem (globalBootPd base) w 21)
        (globalBootPt base) := by
      refine ⟨?_, by omega, by omega⟩
      rw [hentry2, bootWord, if_neg (by omega), if_neg (by omega), if_pos (by omega)]
    have hpage : PageWalk.Links (PageWalk.entry mem (globalBootPt base) w 12)
        (0x1000 * (v / 2 ^ 12)) := by
      refine ⟨?_, by omega, by omega⟩
      rw [h.entry _ 1536 hpt (by omega), bootWord, if_neg (by omega), if_neg (by omega),
        if_neg (by omega), if_neg (by omega), if_pos (by omega)]
      omega
    have hphys : 0x1000 * (v / 2 ^ 12) + w % 2 ^ 12 = v := by omega
    rw [PageWalk.walkPd_link hlink2, PageWalk.walkPt_page hpage, if_pos hsmall, hphys]
  · have hpage : PageWalk.entry mem (globalBootPd base) w 21 = 0x200000 * (v / 2 ^ 21) + 0x83 := by
      rw [hentry2, bootWord, if_neg (by omega), if_neg (by omega), if_neg (by omega),
        if_pos (by omega)]
      omega
    have hphys : 0x200000 * (v / 2 ^ 21) + w % 2 ^ 21 = v := by omega
    rw [PageWalk.walkPd_page hpage (by omega) (by omega), if_neg hsmall, hphys]

/-- **Both windows are mapped**: an address below 1 GB, and the address as
far into the higher half, are translated to it and may be written, by
pages of 4 KB below 2 MB and of 2 MB above. -/
theorem setupPaging_maps (hbss : ∀ x, base ≤ x → x < base + 4 * 4096 → m.mem x = 0)
    (hv : v < 2 ^ 30) :
    (setupPaging base m).cr3 = base ∧
      PageWalk.walk (setupPaging base m).mem base v =
        some ⟨v, true, if v < 2 ^ 21 then 2 ^ 12 else 2 ^ 21⟩ ∧
      PageWalk.walk (setupPaging base m).mem base (0xFFFF800000000000 + v) =
        some ⟨v, true, if v < 2 ^ 21 then 2 ^ 12 else 2 ^ 21⟩ := by
  have hwords := setupPaging_words halign hfits hbss
  refine ⟨?_, walk_bootWord halign hfits hwords hv (Or.inl rfl),
    walk_bootWord halign hfits hwords hv (Or.inr rfl)⟩
  rw [setupPaging, (run_movCr3 ..).2]
  exact Nat.mod_eq_of_lt (by omega)

end Tables

/-- The last byte of the first gigabyte, with the tables at 2 MB. -/
theorem setupPaging_maps_last :
    PageWalk.walk (setupPaging 0x200000 ⟨fun _ => 7, 0, fun _ => 0⟩).mem 0x200000
        (0xFFFF800000000000 + 0x3FFFFFFF) = some ⟨0x3FFFFFFF, true, 2 ^ 21⟩ :=
  (@setupPaging_maps ⟨fun _ => 7, 0, fun _ => 0⟩ 0x200000 0x3FFFFFFF (by decide) (by decide)
    (fun _ _ _ => rfl) (by decide)).2.2

end Boot

end Kos
