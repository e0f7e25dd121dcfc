import Kos.Kmalloc.Conservation
import Kos.Common.Exclusive
/-!
# Kmalloc — `kmalloc` and `kfree` on any number of processors

The free lists and the counters are changed behind `kmalloc_lock`, but
not the headers: `kmalloc` marks the object after it has let go of the
lock, and `kfree` reads the mark before it takes it. The machine below
takes one access at a time, by any processor, in any order. Each call
has one access at which it takes effect, recorded in `log`, and the
calls run whole, in that order, on one processor, hand out the blocks
the machine hands out and leave the heap it leaves.
-/

namespace Kos

namespace Kmalloc

/-- Where a processor is in `kmalloc` or `kfree`; a place is named after
the access that comes next. -/
inductive Pc
  | idle
  | lockAlloc (size : UInt64) (i : Fin 8)
  | readHead (size : UInt64) (i : Fin 8)
  | getPage (size : UInt64) (i : Fin 8)
  | carve (size : UInt64) (i : Fin 8) (page : ℕ)
  | readNext (size : UInt64) (i : Fin 8) (obj : ℕ)
  | popHead (size : UInt64) (i : Fin 8) (obj next : ℕ)
  | countAlloc (size : UInt64) (i : Fin 8) (obj : ℕ)
  | unlockAlloc (size : UInt64) (i : Fin 8) (obj : ℕ)
  | markMagic (size : UInt64) (i : Fin 8) (obj : ℕ)
  | markSize (size : UInt64) (i : Fin 8) (obj : ℕ)
  | checkMagic (ptr : ℕ)
  | checkSize (ptr : ℕ)
  | lockFree (i : Fin 8) (obj : ℕ)
  | linkFree (i : Fin 8) (obj : ℕ)
  | pushFree (i : Fin 8) (obj : ℕ)
  | countFree (i : Fin 8)
  | unlock
  deriving DecidableEq

/-- The heap, the lock and the processors, with three ghosts: the pages
obtained, the blocks that calls have returned and that are not freed, and
the calls that took effect, oldest first. -/
structure Machine (ι : Type*) where
  heap : Heap
  lock : UInt32
  pc : ι → Pc
  regions : List Region
  owned : List Block
  log : List Op

variable {ι : Type*} [DecidableEq ι]

/-- After `kmalloc_init`. -/
def Machine.start (mem : ByteMem) : Machine ι where
  heap := kmallocInit (boot mem)
  lock := 0
  pc := fun _ => .idle
  regions := []
  owned := []
  log := []

/-- A processor goes on to another place. -/
def Machine.goto (m : Machine ι) (c : ι) (p : Pc) : Machine ι :=
  { m with pc := Function.update m.pc c p }

/-- A call takes effect. -/
def Machine.record (m : Machine ι) (op : Op) : Machine ι := { m with log := m.log ++ [op] }

/-- What happens: a processor calls `kmalloc` or `kfree`, or makes its next
access, where `answer` is what the page allocator says if that is a call
to it; or a byte is written by whoever uses the heap. -/
inductive Act (ι : Type*)
  | kmalloc (c : ι) (size : UInt64)
  | kfree (c : ι) (ptr : ℕ)
  | access (c : ι) (answer : ℕ)
  | write (addr : ℕ) (byte : UInt8)

/-- The next access of a processor. -/
def Machine.access (m : Machine ι) (c : ι) (answer : ℕ) : Machine ι :=
  match m.pc c with
  | .idle => m
  | .lockAlloc size i =>
    if m.lock ≠ 0 then m else { m.goto c (.readHead size i) with lock := 1 }
  | .readHead size i =>
    let obj := (m.heap.slabs i).freeList
    if obj ≠ 0 then (m.goto c (.readNext size i obj)).record (.kmalloc size 0)
    else m.goto c (.getPage size i)
  | .getPage size i =>
    if answer ≠ 0 then m.goto c (.carve size i answer)
    else (m.goto c .unlock).record (.kmalloc size 0)
  | .carve size i page =>
    -- nobody else has the address of the page, so the list is built in one step
    { (m.goto c (.readNext size i page)).record (.kmalloc size page) with
      heap := carve m.heap i page
      regions := ⟨page, 1, .slab i⟩ :: m.regions }
  | .readNext size i obj => m.goto c (.popHead size i obj (m.heap.mem.load obj 8))
  | .popHead size i obj next =>
    { m.goto c (.countAlloc size i obj) with
      heap := m.heap.setSlab i { m.heap.slabs i with freeList := next } }
  | .countAlloc size i obj =>
    { m.goto c (.unlockAlloc size i obj) with
      heap := m.heap.setSlab i
        { m.heap.slabs i with allocations := add64 (m.heap.slabs i).allocations 1 } }
  | .unlockAlloc size i obj => { m.goto c (.markMagic size i obj) with lock := 0 }
  | .markMagic size i obj =>
    { m.goto c (.markSize size i obj) with
      heap := { m.heap with mem := m.heap.mem.store (obj + 8) 4 liveMagic } }
  | .markSize size i obj =>
    { m.goto c .idle with
      heap := { m.heap with mem := m.heap.mem.store (obj + 12) 4 (m.heap.slabs i).size }
      owned := ⟨obj + headerSize, size.toNat, .slab i⟩ :: m.owned }
  | .checkMagic ptr =>
    if m.heap.mem.load (ptr - headerSize + 8) 4 ≠ liveMagic then m.goto c .idle
    else m.goto c (.checkSize ptr)
  | .checkSize ptr =>
    let size := m.heap.mem.load (ptr - headerSize + 12) 4
    -- the pages of a large block go back to the page allocator
    if size > kmallocMaxSize then m.goto c .idle
    else
      match sizeToIndex m.heap size with
      | none => m.goto c .idle
      | some i => m.goto c (.lockFree i (ptr - headerSize))
  | .lockFree i obj =>
    if m.lock ≠ 0 then m else { m.goto c (.linkFree i obj) with lock := 1 }
  | .linkFree i obj =>
    { (m.goto c (.pushFree i obj)).record (.kfree (obj + headerSize)) with
      heap := { m.heap with mem := m.heap.mem.store obj 8 (m.heap.slabs i).freeList } }
  | .pushFree i obj =>
    { m.goto c (.countFree i) with
      heap := m.heap.setSlab i { m.heap.slabs i with freeList := obj } }
  | .countFree i =>
    { m.goto c .unlock with
      heap := m.heap.setSlab i { m.heap.slabs i with frees := add64 (m.heap.slabs i).frees 1 } }
  | .unlock => { m.goto c .idle with lock := 0 }

/-- One step. -/
def Machine.step (m : Machine ι) : Act ι → Machine ι
  | .kmalloc c size =>
    match sizeToIndex m.heap size.toNat with
    | none => m
    | some i => m.goto c (.lockAlloc size i)
  | .kfree c ptr =>
    if ptr = 0 then m
    else { m.goto c (.checkMagic ptr) with owned := m.owned.filter fun b => b.ptr ≠ ptr }
  | .access c answer => m.access c answer
  | .write addr byte =>
    { m with heap := { m.heap with mem := Function.update m.heap.mem addr byte } }.record
      (.write addr byte)

/-- **What may happen**: small requests, frees of blocks that were returned,
fresh pages, and writes that reach no header. -/
def Act.Ok (m : Machine ι) : Act ι → Prop
  | .kmalloc c size => m.pc c = .idle ∧ 1 ≤ size.toNat ∧ size.toNat ≤ kmallocMaxSize
  | .kfree c ptr => m.pc c = .idle ∧ ∃ b ∈ m.owned, b.ptr = ptr
  | .access _ answer => answer ≠ 0 → Fresh m.regions answer 1
  | .write addr _ => ∀ i o, Object m.regions i o → addr < o ∨ o + headerSize ≤ addr

/-! ## What the places mean -/

/-- Behind the lock. -/
def Pc.Locked : Pc → Prop
  | .readHead _ _ | .getPage _ _ | .carve _ _ _ | .readNext _ _ _ | .popHead _ _ _ _
  | .countAlloc _ _ _ | .unlockAlloc _ _ _ | .linkFree _ _ | .pushFree _ _ | .countFree _
  | .unlock => True
  | _ => False

/-- The pointer a call is about, from when it took effect in `kmalloc`, until
it takes effect in `kfree`. -/
def Pc.held : Pc → Option ℕ
  | .readNext _ _ obj | .popHead _ _ obj _ | .countAlloc _ _ obj | .unlockAlloc _ _ obj
  | .markMagic _ _ obj | .markSize _ _ obj | .lockFree _ obj | .linkFree _ obj =>
    some (obj + headerSize)
  | .checkMagic ptr | .checkSize ptr => some ptr
  | _ => none

/-- The bytes of the header that are still to be marked. -/
def Pc.Owes : Pc → ℕ → Prop
  | .readNext _ _ obj, x | .popHead _ _ obj _, x | .countAlloc _ _ obj, x
  | .unlockAlloc _ _ obj, x | .markMagic _ _ obj, x => obj + 8 ≤ x ∧ x < obj + headerSize
  | .markSize _ _ obj, x => obj + 12 ≤ x ∧ x < obj + headerSize
  | _, _ => False

/-- The caches once the one behind the lock has finished; `head` is where the
list of the class will start. -/
def Pc.settle (head : Fin 8 → ℕ) (slabs : Fin 8 → SlabCache) : Pc → Fin 8 → SlabCache
  | .readNext _ i _ | .popHead _ i _ _ =>
    Function.update slabs i { slabs i with
      freeList := head i
      allocations := add64 (slabs i).allocations 1 }
  | .countAlloc _ i _ =>
    Function.update slabs i { slabs i with allocations := add64 (slabs i).allocations 1 }
  | .pushFree i obj =>
    Function.update slabs i { slabs i with
      freeList := obj
      frees := add64 (slabs i).frees 1 }
  | .countFree i =>
    Function.update slabs i { slabs i with frees := add64 (slabs i).frees 1 }
  | _ => slabs

/-- A small request and its class. -/
structure Asks (size : UInt64) (i : Fin 8) : Prop where
  pos : 1 ≤ size.toNat
  le : size.toNat ≤ kmallocMaxSize
  use : useOf size.toNat = .slab i

/-- **What holds of the world at each place.** -/
def Pc.At (w : World) : Pc → Prop
  | .lockAlloc size i | .readHead size i => Asks size i
  | .getPage size i => Asks size i ∧ (w.heap.slabs i).freeList = 0
  | .carve size i page =>
    Asks size i ∧ (w.heap.slabs i).freeList = 0 ∧ page ≠ 0 ∧ Fresh w.regions page 1
  | .readNext size i obj =>
    ⟨obj + headerSize, size.toNat, .slab i⟩ ∈ w.live ∧
      w.heap.mem.load obj 8 = (w.heap.slabs i).freeList
  | .popHead size i obj next =>
    ⟨obj + headerSize, size.toNat, .slab i⟩ ∈ w.live ∧ next = (w.heap.slabs i).freeList
  | .countAlloc size i obj | .unlockAlloc size i obj | .markMagic size i obj
  | .markSize size i obj => ⟨obj + headerSize, size.toNat, .slab i⟩ ∈ w.live
  | .checkMagic ptr | .checkSize ptr => ∃ b ∈ w.live, b.ptr = ptr
  | .lockFree i obj | .linkFree i obj =>
    ∃ b ∈ w.live, b.use = .slab i ∧ b.ptr = obj + headerSize
  | _ => True

/-! ## One processor and one world -/

variable {w w' : World} {free : Fin 8 → List ℕ} {i j : Fin 8} {o q x : ℕ} {p : Pc}

/-- A live block of a class is an object with its mark. -/
theorem Whole.object_of_live {b : Block} (h : Whole w free) (hb : b ∈ w.live)
    (hu : b.use = .slab i) (hp : b.ptr = o + headerSize) :
    Object w.regions i o ∧ Marked w.heap.mem i o := by
  obtain ⟨o', hp', hobj, -, hmark⟩ := h.small b hb i hu
  obtain rfl : o' = o := Nat.add_right_cancel (hp'.symm.trans hp)
  exact ⟨hobj, hmark⟩

/-- What a processor owes is in the header of the block it holds. -/
theorem Pc.Owes.live (h : p.Owes x) (hat : p.At w) :
    ∃ size i obj, (⟨obj + headerSize, size, .slab i⟩ : Block) ∈ w.live ∧
      p.held = some (obj + headerSize) ∧ obj + 8 ≤ x ∧ x < obj + headerSize := by
  cases p with
  | readNext size i obj => exact ⟨_, i, obj, hat.1, rfl, h⟩
  | popHead size i obj next => exact ⟨_, i, obj, hat.1, rfl, h⟩
  | countAlloc size i obj => exact ⟨_, i, obj, hat, rfl, h⟩
  | unlockAlloc size i obj => exact ⟨_, i, obj, hat, rfl, h⟩
  | markMagic size i obj => exact ⟨_, i, obj, hat, rfl, h⟩
  | markSize size i obj =>
    have hlow : obj + 12 ≤ x := h.1
    exact ⟨_, i, obj, hat, rfl, by omega, h.2⟩
  | _ => exact h.elim

/-- **What others do is not felt** outside the lock, as long as the block
held stays live. -/
theorem Pc.At.mono (hat : p.At w) (hout : ¬ p.Locked)
    (hkeep : ∀ b ∈ w.live, p.held = some b.ptr → b ∈ w'.live) : p.At w' := by
  cases p with
  | idle => trivial
  | lockAlloc size i => exact hat
  | markMagic size i obj => exact hkeep _ hat rfl
  | markSize size i obj => exact hkeep _ hat rfl
  | checkMagic ptr =>
    obtain ⟨b, hb, hp⟩ := hat
    exact ⟨b, hkeep b hb (congrArg some hp.symm), hp⟩
  | checkSize ptr =>
    obtain ⟨b, hb, hp⟩ := hat
    exact ⟨b, hkeep b hb (congrArg some hp.symm), hp⟩
  | lockFree i obj =>
    obtain ⟨b, hb, hu, hp⟩ := hat
    exact ⟨b, hkeep b hb (congrArg some hp.symm), hu, hp⟩
  | _ => exact absurd trivial hout

/-- The block a processor holds is live. -/
theorem Pc.At.held_live (hat : p.At w) (hheld : p.held = some q) : ∃ b ∈ w.live, b.ptr = q := by
  cases p with
  | readNext size i obj => exact ⟨_, hat.1, Option.some.inj hheld⟩
  | popHead size i obj next => exact ⟨_, hat.1, Option.some.inj hheld⟩
  | countAlloc size i obj => exact ⟨_, hat, Option.some.inj hheld⟩
  | unlockAlloc size i obj => exact ⟨_, hat, Option.some.inj hheld⟩
  | markMagic size i obj => exact ⟨_, hat, Option.some.inj hheld⟩
  | markSize size i obj => exact ⟨_, hat, Option.some.inj hheld⟩
  | checkMagic ptr => exact Option.some.inj hheld ▸ hat
  | checkSize ptr => exact Option.some.inj hheld ▸ hat
  | lockFree i obj =>
    obtain ⟨b, hb, -, hp⟩ := hat
    exact ⟨b, hb, hp.trans (Option.some.inj hheld)⟩
  | linkFree i obj =>
    obtain ⟨b, hb, -, hp⟩ := hat
    exact ⟨b, hb, hp.trans (Option.some.inj hheld)⟩
  | _ => cases hheld

/-! ## The simulation -/

/-- **How the machine stands to the world** in which the calls of its log
were run whole. -/
structure Sim (m : Machine ι) (w : World) : Prop where
  whole : ∃ free, Whole w free
  ready : w.heap.initialized = true
  initialized : m.heap.initialized = true
  sized : ∀ i, (m.heap.slabs i).size = sizes i
  regions : m.regions = w.regions
  exclusive : Exclusive (m.lock ≠ 0) fun c => (m.pc c).Locked
  free : m.lock = 0 → m.heap.slabs = w.heap.slabs
  settled : ∀ c, (m.pc c).Locked →
    (m.pc c).settle (fun i => (w.heap.slabs i).freeList) m.heap.slabs = w.heap.slabs
  mem : ∀ x, (∀ c, ¬ (m.pc c).Owes x) → m.heap.mem x = w.heap.mem x
  places : ∀ c, (m.pc c).At w
  held : ∀ c d q, (m.pc c).held = some q → (m.pc d).held = some q → c = d
  spare : ∀ c q, (m.pc c).held = some q → ∀ b ∈ m.owned, b.ptr ≠ q
  owned : ∀ b ∈ m.owned, b ∈ w.live
  distinct : m.owned.Pairwise fun b b' => b.ptr ≠ b'.ptr
  covered : ∀ b ∈ w.live, b ∈ m.owned ∨ ∃ c, (m.pc c).held = some b.ptr

variable {m : Machine ι} {c d : ι} {heap' : Heap} {lock' : UInt32}

omit [DecidableEq ι] in
/-- The log is a ghost. -/
theorem Sim.setLog (h : Sim m w) (log : List Op) : Sim { m with log := log } w :=
  ⟨h.whole, h.ready, h.initialized, h.sized, h.regions, h.exclusive, h.free, h.settled, h.mem,
    h.places, h.held, h.spare, h.owned, h.distinct, h.covered⟩

/-- No two hold one pointer, when one processor moves on. -/
theorem heldDistinct_update {pc : ι → Pc}
    (h : ∀ a b q, (pc a).held = some q → (pc b).held = some q → a = b)
    (hp : ∀ q, p.held = some q → ∀ d, d ≠ c → (pc d).held ≠ some q) (a b : ι) (q : ℕ)
    (ha : (Function.update pc c p a).held = some q)
    (hb : (Function.update pc c p b).held = some q) : a = b := by
  rw [Function.update_apply] at ha hb
  split at ha <;> split at hb
  · rename_i hac hbc
    exact hac.trans hbc.symm
  · rename_i hbc
    exact absurd hb (hp q ha b hbc)
  · rename_i hac _
    exact absurd ha (hp q hb a hac)
  · exact h a b q ha hb

/-- **A step on the way**: the processor goes on with the block it holds, and
the world stays. -/
theorem Sim.onWay (h : Sim m w) (hheld : p.held = (m.pc c).held) (hplace : p.At w)
    (hinit : heap'.initialized = true) (hsized : ∀ i, (heap'.slabs i).size = sizes i)
    (hexcl : Exclusive (lock' ≠ 0) fun d => (Function.update m.pc c p d).Locked)
    (hfree : lock' = 0 → heap'.slabs = w.heap.slabs)
    (hsettled : ∀ d, (Function.update m.pc c p d).Locked →
      (Function.update m.pc c p d).settle (fun i => (w.heap.slabs i).freeList) heap'.slabs =
        w.heap.slabs)
    (hmem : ∀ x, ¬ p.Owes x → (∀ d, d ≠ c → ¬ (m.pc d).Owes x) → heap'.mem x = w.heap.mem x) :
    Sim { m.goto c p with heap := heap', lock := lock' } w := by
  have hsame : ∀ d, (Function.update m.pc c p d).held = (m.pc d).held :=
    (Function.forall_update_iff m.pc fun d q => q.held = (m.pc d).held).2
      ⟨hheld, fun _ _ => rfl⟩
  refine ⟨h.whole, h.ready, hinit, hsized, h.regions, hexcl, hfree, hsettled, ?_, ?_, ?_, ?_,
    h.owned, h.distinct, ?_⟩
  · intro x hx
    obtain ⟨hc, hothers⟩ := (Function.forall_update_iff m.pc fun _ q => ¬ q.Owes x).1 hx
    exact hmem x hc hothers
  · exact (Function.forall_update_iff m.pc fun _ q => q.At w).2 ⟨hplace, fun d _ => h.places d⟩
  · intro a b q ha hb
    exact h.held a b q ((hsame a).symm.trans ha) ((hsame b).symm.trans hb)
  · intro a q ha
    exact h.spare a q ((hsame a).symm.trans ha)
  · intro b hb
    exact (h.covered b hb).imp_right fun ⟨a, ha⟩ => ⟨a, (hsame a).trans ha⟩

omit [DecidableEq ι] in
/-- Behind the lock nobody else is. -/
theorem Sim.others_out (h : Sim m w) (hc : (m.pc c).Locked) (hd : d ≠ c) : ¬ (m.pc d).Locked :=
  fun hin => hd (h.exclusive.unique d c hin hc)

omit [DecidableEq ι] in
theorem Sim.lock_ne (h : Sim m w) (hc : (m.pc c).Locked) : m.lock ≠ 0 :=
  h.exclusive.taken_iff.2 ⟨c, hc⟩

/-- A processor that stays on its side of the lock. -/
theorem Sim.exclusive_update (h : Sim m w) (hp : p.Locked ↔ (m.pc c).Locked) :
    Exclusive (m.lock ≠ 0) fun d => (Function.update m.pc c p d).Locked :=
  h.exclusive.congr ((Function.forall_update_iff m.pc fun d q => q.Locked ↔ (m.pc d).Locked).2
    ⟨hp, fun _ _ => Iff.rfl⟩)

/-- **A step behind the lock.** -/
theorem Sim.inside (h : Sim m w) (hc : (m.pc c).Locked) (hp : p.Locked)
    (hheld : p.held = (m.pc c).held) (hplace : p.At w)
    (hinit : heap'.initialized = true) (hsized : ∀ i, (heap'.slabs i).size = sizes i)
    (hsettled : p.settle (fun i => (w.heap.slabs i).freeList) heap'.slabs = w.heap.slabs)
    (hmem : ∀ x, ¬ p.Owes x → (∀ d, d ≠ c → ¬ (m.pc d).Owes x) → heap'.mem x = w.heap.mem x) :
    Sim { m.goto c p with heap := heap' } w := by
  refine h.onWay hheld hplace hinit hsized (h.exclusive_update (iff_of_true hp hc))
    (fun hfree => absurd hfree (h.lock_ne hc)) ?_ hmem
  -- the others are outside
  exact (Function.forall_update_iff m.pc fun _ q => q.Locked → q.settle _ _ = _).2
    ⟨fun _ => hsettled, fun d hd hin => absurd hin (h.others_out hc hd)⟩

/-- **A step outside the lock** leaves the caches alone. -/
theorem Sim.outside {mem' : ByteMem} (h : Sim m w) (hc : ¬ (m.pc c).Locked) (hp : ¬ p.Locked)
    (hheld : p.held = (m.pc c).held) (hplace : p.At w)
    (hmem : ∀ x, ¬ p.Owes x → (∀ d, d ≠ c → ¬ (m.pc d).Owes x) → mem' x = w.heap.mem x) :
    Sim { m.goto c p with heap := { m.heap with mem := mem' } } w := by
  refine h.onWay hheld hplace h.initialized h.sized (h.exclusive_update (iff_of_false hp hc))
    h.free ?_ hmem
  exact (Function.forall_update_iff m.pc fun _ q => q.Locked → q.settle _ _ = _).2
    ⟨fun hin => absurd hin hp, fun d _ => h.settled d⟩

omit [DecidableEq ι] in
/-- The memories agree where the processor owes nothing and no other does. -/
theorem Sim.mem_of_others (h : Sim m w) (hc : ¬ (m.pc c).Owes x)
    (hothers : ∀ d, d ≠ c → ¬ (m.pc d).Owes x) : m.heap.mem x = w.heap.mem x := by
  refine h.mem x fun d => ?_
  by_cases hd : d = c
  · exact hd ▸ hc
  · exact hothers d hd

/-- **Taking the lock**, with nothing changed yet. -/
theorem Sim.enter (h : Sim m w) (hfree : m.lock = 0) (hp : p.Locked)
    (hheld : p.held = (m.pc c).held) (hplace : p.At w)
    (hsettle : ∀ head slabs, p.settle head slabs = slabs) (howes : ∀ x, ¬ (m.pc c).Owes x) :
    Sim { m.goto c p with lock := 1 } w := by
  have hlocked : ∀ d, (Function.update m.pc c p d).Locked ↔ d = c ∨ (m.pc d).Locked := by
    refine (Function.forall_update_iff m.pc fun d q => q.Locked ↔ d = c ∨ (m.pc d).Locked).2
      ⟨iff_of_true hp (Or.inl rfl), fun d hd => (or_iff_right hd).symm⟩
  have hexcl := h.exclusive.enter (not_not.2 hfree) hlocked
  have hone : (1 : UInt32) ≠ 0 := by decide
  refine h.onWay hheld hplace h.initialized h.sized ?_ (fun hc => absurd hc hone) ?_ ?_
  · exact ⟨iff_of_true hone (hexcl.taken_iff.1 trivial), hexcl.unique⟩
  · refine (Function.forall_update_iff m.pc fun _ q => q.Locked → q.settle _ _ = _).2
      ⟨fun _ => (hsettle _ _).trans (h.free hfree), fun d _ hin => ?_⟩
    exact absurd hin (h.exclusive.none (not_not.2 hfree) d)
  · exact fun x _ hothers => h.mem_of_others (howes x) hothers

/-- **Letting go of the lock**, with nothing left to change behind it. -/
theorem Sim.leave (h : Sim m w) (hc : (m.pc c).Locked) (hp : ¬ p.Locked)
    (hheld : p.held = (m.pc c).held) (hplace : p.At w)
    (hsettle : ∀ head slabs, (m.pc c).settle head slabs = slabs)
    (howes : ∀ x, ¬ p.Owes x → ¬ (m.pc c).Owes x) :
    Sim { m.goto c p with lock := 0 } w := by
  have hlocked : ∀ d, (Function.update m.pc c p d).Locked ↔ d ≠ c ∧ (m.pc d).Locked := by
    refine (Function.forall_update_iff m.pc fun d q => q.Locked ↔ d ≠ c ∧ (m.pc d).Locked).2
      ⟨iff_of_false hp fun hc => hc.1 rfl, fun d hd => (and_iff_right hd).symm⟩
  have hexcl := h.exclusive.leave hc hlocked
  have hslabs : m.heap.slabs = w.heap.slabs := (hsettle _ _).symm.trans (h.settled c hc)
  refine h.onWay hheld hplace h.initialized h.sized ?_ (fun _ => hslabs) ?_ ?_
  · exact ⟨iff_of_false (fun hc => hc rfl) fun ⟨d, hd⟩ => hexcl.none id d hd, hexcl.unique⟩
  · exact fun d hin => absurd hin (hexcl.none id d)
  · exact fun x hx hothers => h.mem_of_others (howes x hx) hothers

/-- **A call takes effect** behind the lock: the block the processor held is
gone, the one it holds now is new, and the others keep theirs. -/
theorem Sim.effect {regions' : List Region} {log' : List Op} (h : Sim m w) (hc : (m.pc c).Locked)
    (hp : p.Locked) (hwhole : ∃ free, Whole w' free) (hready : w'.heap.initialized = true)
    (hinit : heap'.initialized = true) (hsized : ∀ i, (heap'.slabs i).size = sizes i)
    (hregions : regions' = w'.regions) (hplace : p.At w')
    (hsettled : p.settle (fun i => (w'.heap.slabs i).freeList) heap'.slabs = w'.heap.slabs)
    (hmem : ∀ x, ¬ p.Owes x → (∀ d, d ≠ c → ¬ (m.pc d).Owes x) → heap'.mem x = w'.heap.mem x)
    (hkeep : ∀ b ∈ w.live, (m.pc c).held ≠ some b.ptr → b ∈ w'.live)
    (hnew : ∀ b ∈ w'.live, (b ∈ w.live ∧ (m.pc c).held ≠ some b.ptr) ∨ p.held = some b.ptr)
    (hfresh : ∀ b ∈ w.live, (m.pc c).held ≠ some b.ptr → p.held ≠ some b.ptr) :
    Sim { m.goto c p with heap := heap', regions := regions', log := log' } w' := by
  have hother : ∀ d, d ≠ c → ∀ b ∈ w.live, (m.pc d).held = some b.ptr →
      (m.pc c).held ≠ some b.ptr := fun d hd b _ hheld hheld' => hd (h.held d c _ hheld hheld')
  have hapart : ∀ d, d ≠ c → ∀ q, (m.pc d).held = some q → p.held ≠ some q := by
    intro d hd q hheld
    obtain ⟨b, hb, rfl⟩ := (h.places d).held_live hheld
    exact hfresh b hb (hother d hd b hb hheld)
  refine ⟨hwhole, hready, hinit, hsized, hregions, h.exclusive_update (iff_of_true hp hc),
    fun hfree => absurd hfree (h.lock_ne hc), ?_, ?_, ?_, ?_, ?_, ?_, h.distinct, ?_⟩
  · exact (Function.forall_update_iff m.pc fun _ q => q.Locked → q.settle _ _ = _).2
      ⟨fun _ => hsettled, fun d hd hin => absurd hin (h.others_out hc hd)⟩
  · intro x hx
    obtain ⟨hcx, hothers⟩ := (Function.forall_update_iff m.pc fun _ q => ¬ q.Owes x).1 hx
    exact hmem x hcx hothers
  · refine (Function.forall_update_iff m.pc fun _ q => q.At w').2 ⟨hplace, fun d hd => ?_⟩
    exact (h.places d).mono (h.others_out hc hd) fun b hb hheld =>
      hkeep b hb (hother d hd b hb hheld)
  · exact heldDistinct_update h.held fun q hq d hd hheld => hapart d hd q hheld hq
  · intro a q ha b hb hptr
    change (Function.update m.pc c p a).held = _ at ha
    rw [Function.update_apply] at ha
    split at ha
    · refine hfresh b (h.owned b hb) (fun hheld => ?_) (ha.trans (congrArg some hptr.symm))
      exact h.spare c b.ptr hheld b hb rfl
    · exact h.spare a q ha b hb hptr
  · exact fun b hb => hkeep b (h.owned b hb) fun hheld => h.spare c b.ptr hheld b hb rfl
  · intro b hb
    rcases hnew b hb with ⟨hlive, hne⟩ | hheld
    · refine (h.covered b hlive).imp_right fun ⟨a, ha⟩ => ⟨a, ?_⟩
      have hac : a ≠ c := fun hac => hne (hac ▸ ha)
      exact (congrArg Pc.held (Function.update_of_ne hac ..)).trans ha
    · exact Or.inr ⟨c, (congrArg Pc.held (Function.update_self ..)).trans hheld⟩

/-- A request that finds a free object. -/
theorem Whole.step_take {size : UInt64} (h : Whole w free) (hi : w.heap.initialized = true)
    (ha : Asks size i) (hlist : (w.heap.slabs i).freeList ≠ 0) :
    w.step (.kmalloc size 0) = w.taken i (w.heap.slabs i).freeList size.toNat := by
  have hready : Kmalloc.ready w.heap = w.heap := if_pos hi
  have hout := kmalloc_outcome (h.toInv.ready.1.size_eq h.toInv.ready.2) size.toNat 0
  rw [World.step]
  simp only [hready] at hout
  have hpos := ha.pos
  generalize kmalloc w.heap size.toNat 0 = res at hout ⊢
  cases hout with
  | null request hreq hsmall => exact absurd (hsmall i ha.use (by omega)).1 hlist
  | large hsize hans => exact absurd rfl hans
  | take j hsize hne _ =>
    obtain rfl : i = j := Use.slab.inj (ha.use.symm.trans hsize)
    simp only [World.record, ha.use]
    rfl
  | carve j hsize hne hlist' hans => exact absurd rfl hans

/-- A request that finds none and gets no page. -/
theorem Whole.step_refused {size : UInt64} (h : Whole w free) (hi : w.heap.initialized = true)
    (ha : Asks size i) (hlist : (w.heap.slabs i).freeList = 0) :
    w.step (.kmalloc size 0) = w := by
  have hready : Kmalloc.ready w.heap = w.heap := if_pos hi
  have hout := kmalloc_outcome (h.toInv.ready.1.size_eq h.toInv.ready.2) size.toNat 0
  rw [World.step]
  simp only [hready] at hout
  generalize kmalloc w.heap size.toNat 0 = res at hout ⊢
  cases hout with
  | null request hreq hsmall => cases request <;> simp [World.record]
  | large hsize hans => exact absurd rfl hans
  | take j hsize hne hlist' =>
    obtain rfl : i = j := Use.slab.inj (ha.use.symm.trans hsize)
    exact absurd hlist hlist'
  | carve j hsize hne hlist' hans => exact absurd rfl hans

/-- A request that finds none and splits a page. -/
theorem Whole.step_carve {size : UInt64} {page : ℕ} (h : Whole w free)
    (hi : w.heap.initialized = true) (ha : Asks size i) (hlist : (w.heap.slabs i).freeList = 0)
    (hpage : page ≠ 0) (hf : Fresh w.regions page 1) :
    Op.SparesHeaders w (.kmalloc size page) ∧
      w.step (.kmalloc size page) = (w.carved i page).taken i page size.toNat := by
  have hready : Kmalloc.ready w.heap = w.heap := if_pos hi
  have hout := kmalloc_outcome (h.toInv.ready.1.size_eq h.toInv.ready.2) size.toNat page
  have hpos := ha.pos
  have hle := ha.le
  simp only [Op.SparesHeaders, AnswerOk, World.step]
  simp only [hready] at hout
  generalize kmalloc w.heap size.toNat page = res at hout ⊢
  cases hout with
  | null request hreq hsmall => exact absurd (hsmall i ha.use (by omega)).2 hpage
  | large hsize hans => rw [ha.use] at hsize; cases hsize
  | take j hsize hne hlist' =>
    obtain rfl : i = j := Use.slab.inj (ha.use.symm.trans hsize)
    exact absurd hlist hlist'
  | carve j hsize hne hlist' hans =>
    obtain rfl : i = j := Use.slab.inj (ha.use.symm.trans hsize)
    refine ⟨⟨hpos, hle, ?_⟩, ?_⟩
    · intro pages hp _
      obtain rfl : 1 = pages := Option.some.inj hp
      exact hf
    · have hptr : (takeObject (Kmalloc.carve w.heap i page) i).2 = page + headerSize := by
        simp [takeObject, Kmalloc.carve, Heap.setSlab]
      have hne0 : page + headerSize ≠ 0 := by
        simp only [headerSize]
        omega
      simp only [World.record, ha.use, hptr, if_neg hpage, if_neg hne0]
      rfl

/-- A header is written byte by byte. -/
theorem writeHeader_congr {mem mem' : ByteMem} {next magic size : ℕ} (h : mem x = mem' x) :
    writeHeader mem o next magic size x = writeHeader mem' o next magic size x := by
  simp only [writeHeader, ByteMem.store, h]

/-- **A page is split alike** where the memories agree. -/
theorem buildList_congr {mem mem' : ByteMem} {page size : ℕ} (h : mem x = mem' x) :
    buildList mem page size x = buildList mem' page size x := by
  refine writeHeader_congr ?_
  generalize List.range (pageSize / size - 1) = l
  induction l generalizing mem mem' with
  | nil => exact h
  | cons k l ih => exact ih (writeHeader_congr h)

/-! ## One access -/

variable {size : UInt64} {page obj answer : ℕ}

omit [DecidableEq ι] in
/-- Behind the lock, with nothing pending, the caches are those of the world. -/
theorem Sim.slabs_eq (h : Sim m w) (hc : (m.pc c).Locked)
    (hsettle : ∀ head slabs, (m.pc c).settle head slabs = slabs) :
    m.heap.slabs = w.heap.slabs :=
  (hsettle _ _).symm.trans (h.settled c hc)

/-- **`kmalloc` takes the first free object.** -/
theorem Sim.take (h : Sim m w) (hpc : m.pc c = .readHead size i)
    (hlist : (m.heap.slabs i).freeList ≠ 0) :
    Sim ((m.goto c (.readNext size i (m.heap.slabs i).freeList)).record (.kmalloc size 0))
        (w.step (.kmalloc size 0)) ∧ Op.SparesHeaders w (.kmalloc size 0) := by
  obtain ⟨free, hw⟩ := h.whole
  have hasks : Asks size i := by
    have hat := h.places c
    rwa [hpc] at hat
  have hslabs := h.slabs_eq (c := c) (by rw [hpc]; trivial) (by rw [hpc]; exact fun _ _ => rfl)
  rw [hslabs] at hlist ⊢
  have hspares : Op.SparesHeaders w (.kmalloc size 0) :=
    ⟨hasks.pos, hasks.le, fun _ _ h0 => absurd rfl h0⟩
  have hwhole := hw.step hspares
  have hheld : (m.pc c).held = none := by rw [hpc]; rfl
  have hstep := hw.step_take h.ready hasks hlist
  rw [hstep] at hwhole ⊢
  refine ⟨h.effect (by rw [hpc]; trivial) trivial hwhole h.ready h.initialized h.sized h.regions
    ⟨List.mem_cons_self, ?_⟩ ?_ ?_ (fun b hb _ => List.mem_cons_of_mem _ hb) ?_ ?_, hspares⟩
  · -- the marks are written after the link
    simp only [World.taken, takeObject, Heap.setSlab, Function.update_self]
    rw [ByteMem.load_store_of_disjoint (by omega), ByteMem.load_store_of_disjoint (by omega)]
  · simp only [Machine.goto, Pc.settle, World.taken, takeObject, Heap.setSlab,
      Function.update_self, hslabs]
  · intro x hx hothers
    simp only [Pc.Owes, headerSize] at hx
    have hmem := h.mem_of_others (c := c) (x := x) (by rw [hpc]; exact id) hothers
    simp only [World.taken, takeObject]
    rw [ByteMem.store_of_not_mem (by omega), ByteMem.store_of_not_mem (by omega)]
    exact hmem
  · intro b hb
    rcases List.mem_cons.1 hb with rfl | hb
    · exact Or.inr rfl
    · exact Or.inl ⟨hb, by rw [hheld]; simp⟩
  · -- the object was free
    intro b hb _ hptr
    obtain ⟨free', hw'⟩ := hwhole
    exact (List.pairwise_cons.1 hw'.ptr_ne).1 b hb (Option.some.inj hptr)

/-- **`kmalloc` splits a page.** -/
theorem Sim.carve (h : Sim m w) (hpc : m.pc c = .carve size i page) :
    Sim { (m.goto c (.readNext size i page)).record (.kmalloc size page) with
        heap := Kmalloc.carve m.heap i page
        regions := ⟨page, 1, .slab i⟩ :: m.regions } (w.step (.kmalloc size page)) ∧
      Op.SparesHeaders w (.kmalloc size page) := by
  obtain ⟨free, hw⟩ := h.whole
  obtain ⟨hasks, hlist, hpage, hf⟩ : Asks size i ∧ (w.heap.slabs i).freeList = 0 ∧ page ≠ 0 ∧
      Fresh w.regions page 1 := by
    have hat := h.places c
    rwa [hpc] at hat
  have hslabs := h.slabs_eq (c := c) (by rw [hpc]; trivial) (by rw [hpc]; exact fun _ _ => rfl)
  obtain ⟨hspares, hstep⟩ := hw.step_carve h.ready hasks hlist hpage hf
  have hwhole := hw.step hspares
  have hheld : (m.pc c).held = none := by rw [hpc]; rfl
  rw [hstep] at hwhole ⊢
  refine ⟨h.effect (by rw [hpc]; trivial) trivial hwhole h.ready h.initialized ?_
    (by rw [h.regions]; rfl) ⟨List.mem_cons_self, ?_⟩ ?_ ?_
    (fun b hb _ => List.mem_cons_of_mem _ hb) ?_ ?_, hspares⟩
  · exact fun j => (setSlab_size (by rfl) j).trans (h.sized j)
  · simp only [World.taken, World.carved, takeObject, Kmalloc.carve, Heap.setSlab,
      Function.update_self]
    rw [ByteMem.load_store_of_disjoint (by omega), ByteMem.load_store_of_disjoint (by omega)]
  · simp only [Pc.settle, World.taken, World.carved, takeObject, Kmalloc.carve, Heap.setSlab,
      Function.update_self, Function.update_idem, hslabs]
  · intro x hx hothers
    simp only [Pc.Owes, headerSize] at hx
    have hmem := h.mem_of_others (c := c) (x := x) (by rw [hpc]; exact id) hothers
    simp only [World.taken, World.carved, takeObject, Kmalloc.carve, Heap.setSlab,
      Function.update_self]
    rw [ByteMem.store_of_not_mem (by omega), ByteMem.store_of_not_mem (by omega), hslabs]
    exact buildList_congr hmem
  · intro b hb
    rcases List.mem_cons.1 hb with rfl | hb
    · exact Or.inr rfl
    · exact Or.inl ⟨hb, by rw [hheld]; simp⟩
  · intro b hb _ hptr
    obtain ⟨free', hw'⟩ := hwhole
    exact (List.pairwise_cons.1 hw'.ptr_ne).1 b hb (Option.some.inj hptr)

/-- **`kfree` links the object to the list.** -/
theorem Sim.link (h : Sim m w) (hpc : m.pc c = .linkFree i obj) :
    Sim { (m.goto c (.pushFree i obj)).record (.kfree (obj + headerSize)) with
        heap := { m.heap with mem := m.heap.mem.store obj 8 (m.heap.slabs i).freeList } }
        (w.step (.kfree (obj + headerSize))) ∧
      Op.SparesHeaders w (.kfree (obj + headerSize)) := by
  obtain ⟨free, hw⟩ := h.whole
  obtain ⟨b, hb, hu, hp⟩ : ∃ b ∈ w.live, b.use = .slab i ∧ b.ptr = obj + headerSize := by
    have hat := h.places c
    rwa [hpc] at hat
  have hslabs := h.slabs_eq (c := c) (by rw [hpc]; trivial) (by rw [hpc]; exact fun _ _ => rfl)
  have hspares : Op.SparesHeaders w (.kfree (obj + headerSize)) := ⟨b, hb, hp⟩
  have hwhole := hw.step hspares
  have hheld : (m.pc c).held = some (obj + headerSize) := by rw [hpc]; rfl
  obtain ⟨hobj, hmark⟩ := hw.object_of_live hb hu hp
  have hstep : w.step (.kfree (obj + headerSize)) = { w with
      heap := putBack w.heap i obj
      live := w.live.filter fun b => b.ptr ≠ obj + headerSize } := by
    rw [World.step, hw.kfree_eq hobj hmark]
  rw [hstep] at hwhole ⊢
  refine ⟨h.effect (by rw [hpc]; trivial) trivial hwhole h.ready h.initialized h.sized h.regions
    trivial ?_ ?_ ?_ ?_ ?_, hspares⟩
  · simp only [Pc.settle, putBack, Heap.setSlab, hslabs]
  · intro x _ hothers
    have hmem := h.mem_of_others (c := c) (x := x) (by rw [hpc]; exact id) hothers
    simp only [putBack, ByteMem.store, hslabs, hmem]
  · intro b' hb' hne
    rw [hheld] at hne
    exact List.mem_filter.2 ⟨hb', by simpa using fun hptr => hne (congrArg some hptr.symm)⟩
  · intro b' hb'
    rw [List.mem_filter, decide_eq_true_eq] at hb'
    refine Or.inl ⟨hb'.1, ?_⟩
    rw [hheld]
    exact fun hptr => hb'.2 (Option.some.inj hptr).symm
  · exact fun _ _ _ hc => by cases hc

omit [DecidableEq ι] in
/-- The words of a header that nobody else holds are those of the world. -/
theorem Sim.load_eq {a n : ℕ} (h : Sim m w) (hobj : Object w.regions i o) (hlo : o ≤ a)
    (hhi : a + n ≤ o + headerSize)
    (hnone : a + n ≤ o + 8 ∨ ∀ d, (m.pc d).held = some (o + headerSize) → ∀ x, ¬ (m.pc d).Owes x) :
    m.heap.mem.load a n = w.heap.mem.load a n := by
  obtain ⟨free, hw⟩ := h.whole
  refine ByteMem.load_congr fun x h1 h2 => h.mem x fun d howes => ?_
  obtain ⟨size, j, obj, hlive, hheld, hx1, hx2⟩ := howes.live (h.places d)
  obtain ⟨hobj', -⟩ := hw.object_of_live hlive rfl rfl
  have hi := sizes_ge i
  have hj := sizes_ge j
  simp only [headerSize] at *
  -- one who owes a byte of this header holds its block
  rcases hw.regions.object_apart hobj hobj' with ⟨-, rfl⟩ | hap | hap
  · rcases hnone with hlow | hnone
    · omega
    · exact hnone d hheld x howes
  · omega
  · omega

omit [DecidableEq ι] in
/-- **`kfree` finds the mark and the size** of a block that was returned. -/
theorem Sim.header_eq {ptr : ℕ} (h : Sim m w) (hheld : (m.pc c).held = some ptr)
    (howes : ∀ x, ¬ (m.pc c).Owes x) :
    ∃ b ∈ w.live, ∃ i, b.use = .slab i ∧ b.ptr = ptr - headerSize + headerSize ∧
      m.heap.mem.load (ptr - headerSize + 8) 4 = liveMagic ∧
      m.heap.mem.load (ptr - headerSize + 12) 4 = sizes i := by
  obtain ⟨free, hw⟩ := h.whole
  obtain ⟨b, hb, rfl⟩ := (h.places c).held_live hheld
  obtain ⟨i, hu⟩ := hw.slabs_only b hb
  obtain ⟨o, hp, -⟩ := hw.small b hb i hu
  obtain ⟨hobj, hmark⟩ := hw.object_of_live hb hu hp
  have hnone : ∀ d, (m.pc d).held = some (o + headerSize) → ∀ x, ¬ (m.pc d).Owes x := by
    intro d hd
    rw [h.held d c (o + headerSize) hd (hp ▸ hheld)]
    exact howes
  have hsize : headerSize = 16 := rfl
  rw [hp, Nat.add_sub_cancel]
  exact ⟨b, hb, i, hu, hp,
    (h.load_eq hobj (by omega) (by omega) (Or.inr hnone)).trans hmark.magic,
    (h.load_eq hobj (by omega) (by omega) (Or.inr hnone)).trans hmark.size⟩

/-- The mark is written. -/
theorem Sim.markMagic (h : Sim m w) (hpc : m.pc c = .markMagic size i obj) :
    Sim { m.goto c (.markSize size i obj) with
      heap := { m.heap with mem := m.heap.mem.store (obj + 8) 4 liveMagic } } w := by
  obtain ⟨free, hw⟩ := h.whole
  have hlive : (⟨obj + headerSize, size.toNat, .slab i⟩ : Block) ∈ w.live := by
    have hat := h.places c
    rwa [hpc] at hat
  obtain ⟨-, hmark⟩ := hw.object_of_live hlive rfl rfl
  refine h.outside (by rw [hpc]; exact id) id (by rw [hpc]; rfl) hlive fun x hx hothers => ?_
  simp only [Pc.Owes, headerSize] at hx
  by_cases hin : obj + 8 ≤ x ∧ x < obj + 8 + 4
  · exact ByteMem.store_eq_of_load hmark.magic hin.1 hin.2
  · rw [ByteMem.store_of_not_mem hin]
    refine h.mem_of_others (c := c) ?_ hothers
    rw [hpc]
    simp only [Pc.Owes, headerSize]
    omega

/-- **The size is written, and `kmalloc` returns.** -/
theorem Sim.markSize (h : Sim m w) (hpc : m.pc c = .markSize size i obj) :
    Sim { m.goto c .idle with
      heap := { m.heap with mem := m.heap.mem.store (obj + 12) 4 (m.heap.slabs i).size }
      owned := ⟨obj + headerSize, size.toNat, .slab i⟩ :: m.owned } w := by
  obtain ⟨free, hw⟩ := h.whole
  have hlive : (⟨obj + headerSize, size.toNat, .slab i⟩ : Block) ∈ w.live := by
    have hat := h.places c
    rwa [hpc] at hat
  have hout : ¬ (m.pc c).Locked := by
    rw [hpc]
    exact id
  have hheld : (m.pc c).held = some (obj + headerSize) := by rw [hpc]; rfl
  obtain ⟨-, hmark⟩ := hw.object_of_live hlive rfl rfl
  refine ⟨h.whole, h.ready, h.initialized, h.sized, h.regions,
    h.exclusive_update (iff_of_false id hout), h.free, ?_, ?_, ?_, ?_, ?_, ?_, ?_, ?_⟩
  · exact (Function.forall_update_iff m.pc fun _ q => q.Locked → q.settle _ _ = _).2
      ⟨fun hin => hin.elim, fun d _ => h.settled d⟩
  · intro x hx
    obtain ⟨-, hothers⟩ := (Function.forall_update_iff m.pc fun _ q => ¬ q.Owes x).1 hx
    simp only [h.sized i]
    by_cases hin : obj + 12 ≤ x ∧ x < obj + 12 + 4
    · exact ByteMem.store_eq_of_load hmark.size hin.1 hin.2
    · rw [ByteMem.store_of_not_mem hin]
      refine h.mem_of_others (c := c) ?_ hothers
      rw [hpc]
      simp only [Pc.Owes, headerSize]
      omega
  · exact (Function.forall_update_iff m.pc fun _ q => q.At w).2 ⟨trivial, fun d _ => h.places d⟩
  · exact heldDistinct_update h.held fun q hq => by cases hq
  · -- the block that is returned is nobody else's
    refine (Function.forall_update_iff m.pc fun _ p => ∀ q, p.held = some q →
      ∀ b ∈ (⟨obj + headerSize, size.toNat, .slab i⟩ :: m.owned : List Block), b.ptr ≠ q).2
      ⟨fun q hq => (Option.some_ne_none q hq.symm).elim, ?_⟩
    · intro d hd q hq b hb
      rcases List.mem_cons.1 hb with rfl | hb
      · rintro rfl
        exact hd (h.held d c _ hq hheld)
      · exact h.spare d q hq b hb
  · intro b hb
    rcases List.mem_cons.1 hb with rfl | hb
    · exact hlive
    · exact h.owned b hb
  · exact List.pairwise_cons.2 ⟨fun b hb => (h.spare c _ hheld b hb).symm, h.distinct⟩
  · intro b hb
    rcases h.covered b hb with hown | ⟨a, ha⟩
    · exact Or.inl (List.mem_cons_of_mem _ hown)
    · by_cases hac : a = c
      · -- the block it held is the one it returns
        subst hac
        refine Or.inl (List.mem_cons.2 (Or.inl ?_))
        exact List.inj_on_of_nodup_map (List.pairwise_map.2 hw.ptr_ne) hb hlive
          (Option.some.inj (ha.symm.trans hheld))
      · exact Or.inr ⟨a, (congrArg Pc.held (Function.update_of_ne hac ..)).trans ha⟩

/-- **`kfree` is called** with a block that was returned. -/
theorem Sim.callFree {ptr : ℕ} (h : Sim m w) (hpc : m.pc c = .idle)
    (howned : ∃ b ∈ m.owned, b.ptr = ptr) :
    Sim { m.goto c (.checkMagic ptr) with
      owned := m.owned.filter fun b => b.ptr ≠ ptr } w := by
  have hout : ¬ (m.pc c).Locked := by
    rw [hpc]
    exact id
  have hnone : (m.pc c).held = none := by rw [hpc]; rfl
  obtain ⟨b₀, hb₀, rfl⟩ := howned
  have hsub : ∀ b ∈ m.owned.filter (fun b => b.ptr ≠ b₀.ptr), b ∈ m.owned := fun b hb =>
    List.mem_of_mem_filter hb
  refine ⟨h.whole, h.ready, h.initialized, h.sized, h.regions,
    h.exclusive_update (iff_of_false id hout), h.free, ?_, ?_, ?_, ?_, ?_,
    fun b hb => h.owned b (hsub b hb), h.distinct.sublist List.filter_sublist, ?_⟩
  · exact (Function.forall_update_iff m.pc fun _ q => q.Locked → q.settle _ _ = _).2
      ⟨fun hin => hin.elim, fun d _ => h.settled d⟩
  · intro x hx
    obtain ⟨-, hothers⟩ := (Function.forall_update_iff m.pc fun _ q => ¬ q.Owes x).1 hx
    have howes : ¬ (m.pc c).Owes x := by
      rw [hpc]
      exact id
    exact h.mem_of_others howes hothers
  · exact (Function.forall_update_iff m.pc fun _ q => q.At w).2
      ⟨⟨b₀, h.owned b₀ hb₀, rfl⟩, fun d _ => h.places d⟩
  · refine heldDistinct_update h.held fun q hq d _ hd => ?_
    obtain rfl := Option.some.inj hq
    exact h.spare d _ hd b₀ hb₀ rfl
  · refine (Function.forall_update_iff m.pc fun _ p => ∀ q, p.held = some q →
      ∀ b ∈ m.owned.filter (fun b => b.ptr ≠ b₀.ptr), b.ptr ≠ q).2 ⟨?_, ?_⟩
    · intro q hq b hb
      obtain rfl := Option.some.inj hq
      simpa using List.of_mem_filter hb
    · exact fun d _ q hq b hb => h.spare d q hq b (hsub b hb)
  · intro b hb
    rcases h.covered b hb with hown | ⟨a, ha⟩
    · by_cases hptr : b.ptr = b₀.ptr
      · rw [hptr]
        have hnow : (Pc.checkMagic b₀.ptr).held = some b₀.ptr := rfl
        exact Or.inr ⟨c, (congrArg Pc.held (Function.update_self ..)).trans hnow⟩
      · exact Or.inl (List.mem_filter.2 ⟨hown, by simpa using hptr⟩)
    · have hac : a ≠ c := by
        rintro rfl
        rw [hnone] at ha
        cases ha
      exact Or.inr ⟨a, (congrArg Pc.held (Function.update_of_ne hac ..)).trans ha⟩

omit [DecidableEq ι] in
/-- **A byte is written** where there is no header. -/
theorem Sim.write {addr : ℕ} {byte : UInt8} {log' : List Op} (h : Sim m w)
    (hok : Act.Ok m (.write addr byte : Act ι)) :
    Sim { m with
        heap := { m.heap with mem := Function.update m.heap.mem addr byte }
        log := log' } (w.step (.write addr byte)) ∧
      Op.SparesHeaders w (.write addr byte) := by
  obtain ⟨free, hw⟩ := h.whole
  have hspares : Op.SparesHeaders w (.write addr byte) := by
    intro i o ho
    rw [← h.regions] at ho
    exact hok i o ho
  refine ⟨⟨hw.step hspares, h.ready, h.initialized, h.sized, h.regions, h.exclusive, h.free,
    h.settled, ?_, ?_, h.held, h.spare, h.owned, h.distinct, h.covered⟩, hspares⟩
  · intro x hx
    simp only [World.step, Function.update_apply, h.mem x hx]
  · intro c
    have hat := h.places c
    generalize hpc : m.pc c = p at hat ⊢
    cases p with
    | readNext size i obj =>
      -- the link is in a header
      obtain ⟨hlive, hload⟩ := hat
      obtain ⟨hobj, -⟩ := hw.object_of_live hlive rfl rfl
      have hoff := hspares i obj hobj
      simp only [headerSize] at hoff
      refine ⟨hlive, Eq.trans (ByteMem.load_congr fun x h1 h2 => ?_) hload⟩
      exact Function.update_of_ne (by omega) ..
    | _ => exact hat

/-- The link that is read is the next head of the list. -/
theorem Sim.readNext (h : Sim m w) (hpc : m.pc c = .readNext size i obj) :
    Sim (m.goto c (.popHead size i obj (m.heap.mem.load obj 8))) w := by
  obtain ⟨free, hw⟩ := h.whole
  have hlocked : (m.pc c).Locked := by rw [hpc]; trivial
  have hsettled := h.settled c hlocked
  obtain ⟨hlive, hload⟩ : ⟨obj + headerSize, size.toNat, .slab i⟩ ∈ w.live ∧
      w.heap.mem.load obj 8 = (w.heap.slabs i).freeList := by
    have hat := h.places c
    rwa [hpc] at hat
  obtain ⟨hobj, -⟩ := hw.object_of_live hlive rfl rfl
  have hnext := h.load_eq (a := obj) (n := 8) hobj le_rfl (by simp [headerSize]) (Or.inl le_rfl)
  rw [hpc] at hsettled
  refine h.inside hlocked trivial (by rw [hpc]; rfl) ⟨hlive, hnext.trans hload⟩ h.initialized
    h.sized hsettled fun x hx hothers => h.mem_of_others (c := c) ?_ hothers
  rwa [hpc]

/-- A step that rewrites the cache of a class and no memory. -/
theorem Sim.setSlab {slab : SlabCache} (h : Sim m w) (hc : (m.pc c).Locked) (hp : p.Locked)
    (hheld : p.held = (m.pc c).held) (hplace : p.At w)
    (hsize : slab.size = (m.heap.slabs i).size)
    (hsettled : p.settle (fun i => (w.heap.slabs i).freeList) (m.heap.setSlab i slab).slabs =
      (m.pc c).settle (fun i => (w.heap.slabs i).freeList) m.heap.slabs)
    (howes : ∀ x, ¬ p.Owes x → ¬ (m.pc c).Owes x) :
    Sim { m.goto c p with heap := m.heap.setSlab i slab } w :=
  h.inside hc hp hheld hplace h.initialized (fun j => (setSlab_size hsize j).trans (h.sized j))
    (hsettled.trans (h.settled c hc)) fun _ hx => h.mem_of_others (howes _ hx)

/-- The size in the header leads back to the cache the object came from. -/
theorem Sim.checkSize {ptr : ℕ} (h : Sim m w) (hpc : m.pc c = .checkSize ptr) :
    ∃ i, m.heap.mem.load (ptr - headerSize + 12) 4 = sizes i ∧
      sizeToIndex m.heap (sizes i) = some i ∧
      Sim (m.goto c (.lockFree i (ptr - headerSize))) w := by
  have hheld : (m.pc c).held = some ptr := by rw [hpc]; rfl
  obtain ⟨b, hb, i, hu, hp, -, hsize⟩ := h.header_eq hheld (by rw [hpc]; exact fun _ => id)
  have hidx : sizeToIndex m.heap (sizes i) = some i := by
    simp only [sizeToIndex, h.sized]
    exact find_sizes i
  have hptr : ptr = ptr - headerSize + headerSize := by
    have hat := h.places c
    rw [hpc] at hat
    obtain ⟨b', hb', hptr'⟩ := hat
    obtain ⟨free, hw⟩ := h.whole
    obtain ⟨j, hu'⟩ := hw.slabs_only b' hb'
    obtain ⟨o, hp', -⟩ := hw.small b' hb' j hu'
    omega
  refine ⟨i, hsize, hidx, h.outside (by rw [hpc]; exact id) id ?_ ⟨b, hb, hu, hp⟩ ?_⟩
  · rw [hpc]
    exact congrArg some hptr.symm
  · exact fun x _ => h.mem_of_others (by rw [hpc]; exact id)

/-- **Every access** is a step on the way or makes one call take effect. -/
theorem Sim.access (h : Sim m w) (hok : Act.Ok m (.access c answer)) :
    ∃ ops, (m.access c answer).log = m.log ++ ops ∧
      Allowed World.step (fun w op => op.SparesHeaders w) w ops ∧
      Sim (m.access c answer) (runFrom World.step w ops) := by
  -- an access that makes no call take effect
  have hquiet : ∀ m' : Machine ι, m'.log = m.log → Sim m' w → ∃ ops, m'.log = m.log ++ ops ∧
      Allowed World.step (fun w op => op.SparesHeaders w) w ops ∧
      Sim m' (runFrom World.step w ops) :=
    fun m' hlog hm' => ⟨[], hlog.trans (List.append_nil _).symm, trivial, hm'⟩
  have hat := h.places c
  rw [Machine.access]
  generalize hpc : m.pc c = p at hat
  cases p with
  | idle => exact hquiet m rfl h
  | lockAlloc size i =>
    simp only
    split
    · exact hquiet m rfl h
    · rename_i hfree
      exact hquiet _ rfl (h.enter (not_not.1 hfree) trivial (by rw [hpc]; rfl) hat
        (fun _ _ => rfl) (by rw [hpc]; exact fun _ => id))
  | readHead size i =>
    have hlocked : (m.pc c).Locked := by rw [hpc]; trivial
    simp only
    split
    · rename_i hlist
      obtain ⟨hsim, hspares⟩ := h.take hpc hlist
      exact ⟨[_], rfl, ⟨hspares, trivial⟩, hsim⟩
    · rename_i hlist
      have hslabs := h.slabs_eq hlocked (by rw [hpc]; exact fun _ _ => rfl)
      refine hquiet _ rfl (h.inside hlocked trivial (by rw [hpc]; rfl)
        ⟨hat, hslabs ▸ not_not.1 hlist⟩ h.initialized h.sized hslabs ?_)
      exact fun x _ => h.mem_of_others (by rw [hpc]; exact id)
  | getPage size i =>
    have hlocked : (m.pc c).Locked := by rw [hpc]; trivial
    have hslabs := h.slabs_eq hlocked (by rw [hpc]; exact fun _ _ => rfl)
    simp only
    split
    · rename_i hpage
      refine hquiet _ rfl (h.inside hlocked trivial (by rw [hpc]; rfl)
        ⟨hat.1, hat.2, hpage, h.regions ▸ hok hpage⟩ h.initialized h.sized hslabs ?_)
      exact fun x _ => h.mem_of_others (by rw [hpc]; exact id)
    · -- `NULL` is returned
      obtain ⟨free, hw⟩ := h.whole
      refine ⟨[.kmalloc size 0], rfl, ⟨⟨hat.1.pos, hat.1.le, fun _ _ h0 => absurd rfl h0⟩,
        trivial⟩, ?_⟩
      rw [runFrom_cons, runFrom_nil, hw.step_refused h.ready hat.1 hat.2]
      have hunlock : Sim (m.goto c .unlock) w := by
        refine h.inside hlocked trivial (by rw [hpc]; rfl) trivial h.initialized h.sized hslabs ?_
        exact fun x _ => h.mem_of_others (by rw [hpc]; exact id)
      exact hunlock.setLog _
  | carve size i page =>
    obtain ⟨hsim, hspares⟩ := h.carve hpc
    exact ⟨[_], rfl, ⟨hspares, trivial⟩, hsim⟩
  | readNext size i obj => exact hquiet _ rfl (h.readNext hpc)
  | popHead size i obj next =>
    obtain ⟨hlive, rfl⟩ := hat
    refine hquiet _ rfl (h.setSlab (by rw [hpc]; trivial) trivial (by rw [hpc]; rfl) hlive (by rfl)
      ?_ (by rw [hpc]; exact fun _ hx => hx))
    simp only [hpc, Pc.settle, Heap.setSlab, Function.update_self, Function.update_idem]
  | countAlloc size i obj =>
    refine hquiet _ rfl (h.setSlab (by rw [hpc]; trivial) trivial (by rw [hpc]; rfl) hat (by rfl)
      ?_ (by rw [hpc]; exact fun _ hx => hx))
    simp only [hpc, Pc.settle, Heap.setSlab]
  | unlockAlloc size i obj =>
    exact hquiet _ rfl (h.leave (by rw [hpc]; trivial) id (by rw [hpc]; rfl) hat
      (by rw [hpc]; exact fun _ _ => rfl) (by rw [hpc]; exact fun _ hx => hx))
  | markMagic size i obj => exact hquiet _ rfl (h.markMagic hpc)
  | markSize size i obj => exact hquiet _ rfl (h.markSize hpc)
  | checkMagic ptr =>
    have hheld : (m.pc c).held = some ptr := by rw [hpc]; rfl
    obtain ⟨b, -, i, -, -, hmagic, -⟩ := h.header_eq hheld (by rw [hpc]; exact fun _ => id)
    simp only [hmagic, ne_eq, not_true, if_false]
    refine hquiet _ rfl (h.outside (by rw [hpc]; exact id) id (by rw [hpc]; rfl) hat ?_)
    exact fun x _ => h.mem_of_others (by rw [hpc]; exact id)
  | checkSize ptr =>
    obtain ⟨i, hsize, hidx, hsim⟩ := h.checkSize hpc
    simp only [hsize, if_neg (not_lt.2 (sizes_le i)), hidx]
    exact hquiet _ rfl hsim
  | lockFree i obj =>
    simp only
    split
    · exact hquiet m rfl h
    · rename_i hfree
      exact hquiet _ rfl (h.enter (not_not.1 hfree) trivial (by rw [hpc]; rfl) hat
        (fun _ _ => rfl) (by rw [hpc]; exact fun _ => id))
  | linkFree i obj =>
    obtain ⟨hsim, hspares⟩ := h.link hpc
    exact ⟨[_], rfl, ⟨hspares, trivial⟩, hsim⟩
  | pushFree i obj =>
    refine hquiet _ rfl (h.setSlab (by rw [hpc]; trivial) trivial (by rw [hpc]; rfl) trivial
      (by rfl) ?_ (by rw [hpc]; exact fun _ hx => hx))
    simp only [hpc, Pc.settle, Heap.setSlab, Function.update_self, Function.update_idem]
  | countFree i =>
    refine hquiet _ rfl (h.setSlab (by rw [hpc]; trivial) trivial (by rw [hpc]; rfl) trivial
      (by rfl) ?_ (by rw [hpc]; exact fun _ hx => hx))
    simp only [hpc, Pc.settle, Heap.setSlab]
  | unlock =>
    exact hquiet _ rfl (h.leave (by rw [hpc]; trivial) id (by rw [hpc]; rfl) trivial
      (by rw [hpc]; exact fun _ _ => rfl) (by rw [hpc]; exact fun _ hx => hx))

/-- **Every step** is a step on the way or makes one call take effect. -/
theorem Sim.step {a : Act ι} (h : Sim m w) (hok : a.Ok m) :
    ∃ ops, (m.step a).log = m.log ++ ops ∧
      Allowed World.step (fun w op => op.SparesHeaders w) w ops ∧
      Sim (m.step a) (runFrom World.step w ops) := by
  cases a with
  | kmalloc c size =>
    obtain ⟨hpc, hpos, hle⟩ := hok
    obtain ⟨i, hu⟩ : ∃ i, useOf size.toNat = .slab i := by
      cases hu : useOf size.toNat with
      | slab i => exact ⟨i, rfl⟩
      | large => exact absurd (useOf_large_iff.1 hu) (Nat.not_lt.2 hle)
    have hidx : sizeToIndex m.heap size.toNat = some i := by
      simp only [sizeToIndex, h.sized]
      exact useOf_slab hu
    refine ⟨[], ?_, trivial, ?_⟩ <;> simp only [Machine.step, hidx]
    · exact (List.append_nil _).symm
    · refine h.outside (by rw [hpc]; exact id) id (by rw [hpc]; rfl) ⟨hpos, hle, hu⟩ ?_
      exact fun x _ => h.mem_of_others (by rw [hpc]; exact id)
  | kfree c ptr =>
    obtain ⟨hpc, howned⟩ := hok
    refine ⟨[], ?_, trivial, ?_⟩ <;> simp only [Machine.step] <;> split
    · exact (List.append_nil _).symm
    · exact (List.append_nil _).symm
    · exact h
    · exact h.callFree hpc howned
  | access c answer => exact h.access hok
  | write addr byte =>
    obtain ⟨hsim, hspares⟩ := h.write hok
    exact ⟨[_], rfl, ⟨hspares, trivial⟩, hsim⟩

/-! ## Runs -/

/-- The world after `kmalloc_init`. -/
def World.start (mem : ByteMem) : World := ⟨kmallocInit (Kmalloc.boot mem), [], []⟩

omit [DecidableEq ι] in
theorem sim_start (mem : ByteMem) : Sim (Machine.start mem : Machine ι) (World.start mem) where
  whole := ⟨_, (whole_boot mem).ready⟩
  ready := rfl
  initialized := rfl
  sized _ := rfl
  regions := rfl
  exclusive := by
    have hstart : Exclusive False fun c => ((Machine.start mem : Machine ι).pc c).Locked :=
      exclusive_start fun _ => id
    exact ⟨iff_of_false (fun hc => hc rfl) fun ⟨c, hc⟩ => hstart.none id c hc, hstart.unique⟩
  free _ := rfl
  settled _ h := h.elim
  mem _ _ := rfl
  places _ := trivial
  held c d q h := by cases h
  spare c q h := by cases h
  owned b hb := by cases hb
  distinct := List.Pairwise.nil
  covered b hb := by cases hb

/-- **What the calls of the log, run whole, say about the machine**: they may
be run, they account for every object, the blocks returned are live and at
different addresses, memory agrees except for marks that are still to be
written, and when nobody is in a call the heaps and the blocks are the
same. -/
structure Linearized (m : Machine ι) (mem : ByteMem) (w : World) : Prop where
  allowed : Allowed World.step (fun w op => op.SparesHeaders w) (World.start mem) m.log
  conserved : ∃ free, Conserved w free
  owned : ∀ b ∈ m.owned, b ∈ w.live
  distinct : m.owned.Pairwise fun b b' => b.ptr ≠ b'.ptr
  memory : ∀ x, (∀ c, ¬ (m.pc c).Owes x) → m.heap.mem x = w.heap.mem x
  idle : (∀ c, m.pc c = .idle) → m.heap = w.heap ∧ ∀ b, b ∈ w.live ↔ b ∈ m.owned

/-- **`kmalloc` and `kfree` are linearizable.** After every run of any
number of processors, the calls take effect one after the other. -/
theorem kmalloc_linearizable {mem : ByteMem} {acts : List (Act ι)}
    (hrun : Allowed Machine.step Act.Ok (Machine.start mem) acts) :
    Linearized (runFrom Machine.step (Machine.start mem) acts) mem
      (runFrom World.step (World.start mem)
        (runFrom Machine.step (Machine.start mem) acts).log) := by
  have hlin : Allowed World.step (fun w op => op.SparesHeaders w) (World.start mem)
        (runFrom Machine.step (Machine.start mem) acts).log ∧
      Sim (runFrom Machine.step (Machine.start mem) acts)
        (runFrom World.step (World.start mem)
          (runFrom Machine.step (Machine.start mem) acts).log) := by
    refine Allowed.invariant (P := fun m : Machine ι =>
      Allowed World.step (fun w op => op.SparesHeaders w) (World.start mem) m.log ∧
        Sim m (runFrom World.step (World.start mem) m.log)) ?_ hrun ⟨trivial, sim_start mem⟩
    rintro m a ⟨hall, hsim⟩ hok
    obtain ⟨ops, hlog, hops, hsim'⟩ := hsim.step hok
    rw [hlog, runFrom_append]
    exact ⟨Allowed.append.2 ⟨hall, hops⟩, hsim'⟩
  generalize runFrom Machine.step (Machine.start mem) acts = m at hlin ⊢
  obtain ⟨hall, h⟩ := hlin
  obtain ⟨free, hw⟩ := h.whole
  refine ⟨hall, ⟨free, hw.conserved⟩, h.owned, h.distinct, h.mem, fun hidle => ⟨?_, fun b => ?_⟩⟩
  · -- nobody is behind the lock, and nobody owes a mark
    have hfree : m.lock = 0 := by
      by_contra hne
      obtain ⟨c, hc⟩ := h.exclusive.taken_iff.1 hne
      rw [hidle c] at hc
      exact hc
    have hslabs := h.free hfree
    have hmem : m.heap.mem = _ := funext fun x => h.mem x fun c => by
      rw [hidle c]
      exact id
    have hinit := h.initialized.trans h.ready.symm
    calc m.heap = ⟨m.heap.slabs, m.heap.initialized, m.heap.mem⟩ := rfl
      _ = _ := by rw [hslabs, hmem, hinit]
  · refine ⟨fun hb => (h.covered b hb).resolve_right ?_, h.owned b⟩
    rintro ⟨c, hc⟩
    rw [hidle c] at hc
    cases hc

/-- Two processors ask for 16 bytes; the second waits while the first splits
a page, and takes effect while the first has not marked its object. -/
def twoRequests : List (Act (Fin 2)) :=
  [.kmalloc 0 16, .access 0 0, .kmalloc 1 16, .access 1 0, .access 0 0, .access 0 0x100000,
    .access 0 0, .access 0 0, .access 0 0, .access 0 0, .access 0 0, .access 1 0, .access 1 0]

theorem kmalloc_linearizable_two :
    (runFrom Machine.step (Machine.start fun _ => 0) twoRequests).log =
        [.kmalloc 16 0x100000, .kmalloc 16 0] ∧
      Linearized (runFrom Machine.step (Machine.start fun _ => 0) twoRequests) (fun _ => 0)
        (runFrom World.step (World.start fun _ => 0)
          (runFrom Machine.step (Machine.start fun _ => 0) twoRequests).log) := by
  have hidle :
      (runFrom Machine.step (Machine.start fun _ => 0) (twoRequests.take 2)).pc 1 = .idle := by
    decide +kernel
  have hregions :
      (runFrom Machine.step (Machine.start fun _ => 0) (twoRequests.take 5)).regions = [] := by
    decide +kernel
  have hnull : ∀ regions, (0 : ℕ) ≠ 0 → Fresh regions 0 1 := fun _ h0 => absurd rfl h0
  refine ⟨by decide +kernel, kmalloc_linearizable ⟨⟨rfl, by decide, by decide⟩, hnull _,
    ⟨hidle, by decide, by decide⟩, hnull _, hnull _, fun _ => ?_, hnull _, hnull _, hnull _,
    hnull _, hnull _, hnull _, hnull _, trivial⟩⟩
  exact hregions ▸ fresh_page

end Kmalloc

end Kos
