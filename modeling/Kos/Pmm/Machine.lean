import Kos.Pmm.Init
/-!
# Pmm — several CPUs inside the physical memory manager

Each CPU is somewhere in a call, and one step of the machine moves one
CPU by one atomic action: an unlocked read of a zone's counter, or a
whole locked section. The log of grants is a ghost: every block handed
out, with the counter its section found. Since a free that goes through
changes no bit, bits are only ever set, and everything about the blocks
follows from that; the counters need in addition that no increment
wraps.
-/

namespace Kos

namespace Pmm

/-! ## The machine -/

/-- The calls a CPU can make. -/
inductive Call
  | allocPage
  | allocPages (count : ℕ)
  | allocHugePage
  | freePage (addr : ℕ)
  | freePages (addr count : ℕ)
  deriving DecidableEq, Repr

/-- Where a CPU stands in its call. -/
inductive Pc
  | idle
  /-- about to read the counter of `z` -/
  | gate (r : Request) (z : ZoneIdx) (rest : List ZoneIdx)
  /-- past the gate, about to take the lock of `z` -/
  | locked (r : Request) (z : ZoneIdx) (rest : List ZoneIdx)
  /-- freeing the page at `addr`, with `more` pages after it -/
  | free (addr : ℕ) (rest : List ZoneIdx) (more : ℕ)
  deriving DecidableEq, Repr

/-- The next zone of an allocation, or its return with `NULL`. -/
def Pc.tryNext (r : Request) : List ZoneIdx → Pc
  | [] => .idle
  | z :: rest => .gate r z rest

/-- The next page of a free, or its return. -/
def Pc.nextPage (addr more : ℕ) : Pc :=
  if more = 0 then .idle else .free (add64 addr pageSize) freeOrder (more - 1)

/-- The entry of a call, up to its first atomic action. -/
def Call.enter : Call → Pc
  | .allocPage => .tryNext .page allocOrder
  | .allocPages count =>
    if count = 0 then .idle
    else if count = 1 then .tryNext .page allocOrder
    else .tryNext (.pages count) allocOrder
  | .allocHugePage => .tryNext .huge allocOrder
  | .freePage addr => if addr = 0 then .idle else .free addr freeOrder 0
  | .freePages addr count =>
    if addr = 0 ∨ count = 0 then .idle else .free addr freeOrder (count - 1)

/-- A block handed out: the pointer returned, its length in frames, and
the counter the locked section found. -/
structure Grant where
  ptr : ℕ
  count : ℕ
  zone : ZoneIdx
  freeBefore : ℕ
  deriving DecidableEq, Repr

/-- The first frame of a block. -/
def Grant.pfn (g : Grant) : ℕ := virtToPhys g.ptr / pageSize

/-- The frames of a block. -/
def Grant.Holds (g : Grant) (f : ℕ) : Prop := g.pfn ≤ f ∧ f < g.pfn + g.count

/-- The memory manager, its CPUs, and the blocks handed out so far. -/
structure Machine where
  pmm : State
  pc : ℕ → Pc
  grants : List Grant

/-- What the scheduler of the machine chooses. -/
inductive Action
  | call (cpu : ℕ) (c : Call)
  | tick (cpu : ℕ)
  deriving DecidableEq, Repr

/-- Move one CPU's program counter. -/
def Machine.goto (m : Machine) (cpu : ℕ) (pc : Pc) : Machine :=
  { m with pc := Function.update m.pc cpu pc }

/-- One atomic action of a CPU. -/
def Machine.tick (m : Machine) (cpu : ℕ) : Machine :=
  match m.pc cpu with
  | .idle => m
  | .gate r z rest =>
    if r.skips (m.pmm.zones z).freePages then m.goto cpu (.tryNext r rest)
    else m.goto cpu (.locked r z rest)
  | .locked r z rest =>
    match lockedAlloc r z m.pmm with
    | none => m.goto cpu (.tryNext r rest)
    | some (pfn, s) =>
      { pmm := s
        pc := Function.update m.pc cpu .idle
        grants := ⟨physToVirt (pfn * pageSize), r.count, z, (m.pmm.zones z).freePages⟩ ::
          m.grants }
  | .free addr rest more =>
    match rest with
    | [] => m.goto cpu (.nextPage addr more)
    | z :: rest =>
      if addr = 0 then m.goto cpu (.nextPage addr more)
      else
        match lockedFree z (addr / pageSize) m.pmm with
        | .freed s => { m with pmm := s, pc := Function.update m.pc cpu (.nextPage addr more) }
        | _ => m.goto cpu (.free addr rest more)

/-- **One step of the machine.** -/
def Machine.step (m : Machine) : Action → Machine
  | .call cpu c => if m.pc cpu = .idle then m.goto cpu c.enter else m
  | .tick cpu => m.tick cpu

/-- The machine after `pmm_init`, every CPU idle. -/
def Machine.boot (mmap : List MmapEntry) : Machine where
  pmm := pmmInit mmap
  pc := fun _ => .idle
  grants := []

/-! ## What a step can do -/

variable {m m' : Machine} {mmap : List MmapEntry} {a : Action}

/-- **All a step can do to the zones and the log**: nothing, one locked
allocation with its grant, or one locked free. -/
inductive Effect (m : Machine) (a : Action) (m' : Machine) : Prop
  | none (hp : m'.pmm = m.pmm) (hg : m'.grants = m.grants)
  | alloc (r : Request) (z : ZoneIdx) (pfn : ℕ)
      (hrun : (m.pmm.zones z).FreeRun pfn r.count)
      (hp : m'.pmm = m.pmm.setZone z ((m.pmm.zones z).mark pfn r.count))
      (hg : m'.grants = ⟨physToVirt (pfn * pageSize), r.count, z, (m.pmm.zones z).freePages⟩ ::
        m.grants)
  | free (cpu addr more : ℕ) (z : ZoneIdx) (rest : List ZoneIdx) (ha : a = .tick cpu)
      (hpc : m.pc cpu = .free addr (z :: rest) more)
      (hhit : FreeHits m.pmm z (addr / pageSize))
      (hp : m'.pmm = m.pmm.setZone z ((m.pmm.zones z).refree (addr / pageSize)))
      (hg : m'.grants = m.grants)

theorem Effect.of_goto (m : Machine) (a : Action) (cpu : ℕ) (pc : Pc) :
    Effect m a (m.goto cpu pc) :=
  .none rfl rfl

theorem Machine.tick_effect (m : Machine) (cpu : ℕ) : Effect m (.tick cpu) (m.tick cpu) := by
  cases hpc : m.pc cpu with
  | idle =>
    rw [show m.tick cpu = m by simp only [Machine.tick, hpc]]
    exact .none rfl rfl
  | gate r z rest =>
    simp only [Machine.tick, hpc]
    split <;> exact .of_goto m _ cpu _
  | locked r z rest =>
    cases hl : lockedAlloc r z m.pmm with
    | none =>
      simp only [Machine.tick, hpc, hl]
      exact .of_goto m _ cpu _
    | some out =>
      obtain ⟨pfn, s⟩ := out
      obtain ⟨hrun, rfl⟩ := lockedAlloc_cases hl
      simp only [Machine.tick, hpc, hl]
      exact .alloc r z pfn hrun rfl rfl
  | free addr rest more =>
    cases rest with
    | nil =>
      simp only [Machine.tick, hpc]
      exact .of_goto m _ cpu _
    | cons z rest =>
      by_cases h0 : addr = 0
      · simp only [Machine.tick, hpc, if_pos h0]
        exact .of_goto m _ cpu _
      · cases hl : lockedFree z (addr / pageSize) m.pmm with
        | notHere =>
          simp only [Machine.tick, hpc, if_neg h0, hl]
          exact .of_goto m _ cpu _
        | doubleFree =>
          simp only [Machine.tick, hpc, if_neg h0, hl]
          exact .of_goto m _ cpu _
        | freed s =>
          obtain ⟨hhit, rfl⟩ := lockedFree_cases hl
          refine .free cpu addr more z rest rfl hpc hhit ?_ ?_
          · simp only [Machine.tick, hpc, if_neg h0, hl]
          · simp only [Machine.tick, hpc, if_neg h0, hl]

theorem Machine.step_effect (m : Machine) (a : Action) : Effect m a (m.step a) := by
  cases a with
  | call cpu c =>
    simp only [Machine.step]
    split
    · exact .of_goto m _ cpu _
    · exact .none rfl rfl
  | tick cpu => exact m.tick_effect cpu

/-! ## Safety of the blocks handed out -/

/-- **What holds of the zones and the log in every run.** Bits that are
clear were clear from the start, and a block's bits are set. -/
structure Safe (mmap : List MmapEntry) (m : Machine) : Prop where
  layout : SameLayout m.pmm (pmmInit mmap)
  clear : ∀ z idx, (m.pmm.zones z).used idx = false → ((pmmInit mmap).zones z).used idx = false
  inside : ∀ g ∈ m.grants, (m.pmm.zones g.zone).basePfn ≤ g.pfn ∧
    g.pfn + g.count ≤ (m.pmm.zones g.zone).endPfn
  held : ∀ g ∈ m.grants, ∀ f, g.Holds f →
    (m.pmm.zones g.zone).used (f - (m.pmm.zones g.zone).basePfn) = true ∧
      ((pmmInit mmap).zones g.zone).used (f - (m.pmm.zones g.zone).basePfn) = false
  disjoint : m.grants.Pairwise fun g h => ∀ f, g.Holds f → ¬ h.Holds f

theorem safe_boot (mmap : List MmapEntry) : Safe mmap (Machine.boot mmap) where
  layout := SameLayout.refl _
  clear _ _ h := h
  inside g hg := by simp [Machine.boot] at hg
  held g hg := by simp [Machine.boot] at hg
  disjoint := List.Pairwise.nil

/-- The first frame of a block is the one the section found. -/
theorem Grant.pfn_eq {pfn count free : ℕ} {z : ZoneIdx} (h : pfn ≤ 2 ^ 40) :
    Grant.pfn ⟨physToVirt (pfn * pageSize), count, z, free⟩ = pfn := by
  have hlt : pfn * pageSize < 2 ^ 64 := by simp only [pageSize]; omega
  rw [Grant.pfn, virtToPhys_physToVirt hlt, Nat.mul_div_cancel _ (by decide)]

/-- A frame of the run an allocation marks was free, so no earlier block
holds it: blocks of the same zone have their bits set, and zones do not
share frames. -/
theorem Safe.not_held {z : ZoneIdx} {pfn n : ℕ} (h : Safe mmap m) (hok : MapOk mmap)
    (hrun : (m.pmm.zones z).FreeRun pfn n) {g : Grant} (hg : g ∈ m.grants) {f : ℕ}
    (h1 : pfn ≤ f) (h2 : f < pfn + n) : ¬ g.Holds f := by
  intro hf
  have hb := hrun.base_le
  have he := hrun.le_end
  have hclear := hrun.clear f h1 h2
  by_cases hz : g.zone = z
  · have hset := (h.held g hg f hf).1
    rw [hz, hclear] at hset
    exact Bool.noConfusion hset
  · have hin := h.inside g hg
    have hapart := hok.initSpec.apart z g.zone f (Ne.symm hz)
    rw [← h.layout.base, ← h.layout.stop, ← h.layout.base, ← h.layout.stop] at hapart
    simp only [Grant.Holds] at hf
    exact hapart (by omega) (by omega) ⟨by omega, by omega⟩

/-- **An allocation keeps the machine safe**: bits are only set, and the
frames of the new block were free. -/
theorem Safe.alloc {r : Request} {z : ZoneIdx} {pfn : ℕ} (h : Safe mmap m) (hok : MapOk mmap)
    (hrun : (m.pmm.zones z).FreeRun pfn r.count)
    (hp : m'.pmm = m.pmm.setZone z ((m.pmm.zones z).mark pfn r.count))
    (hg : m'.grants = ⟨physToVirt (pfn * pageSize), r.count, z, (m.pmm.zones z).freePages⟩ ::
      m.grants) : Safe mmap m' := by
  have hb := hrun.base_le
  have he := hrun.le_end
  have hle : pfn ≤ 2 ^ 40 := by
    have := hok.initSpec.end_le z
    rw [← h.layout.stop] at this
    omega
  have hlay : SameLayout m'.pmm m.pmm := by
    rw [hp]
    exact SameLayout.setZone mark_basePfn mark_endPfn mark_totalPages
  have hmono : ∀ w idx, (m.pmm.zones w).used idx = true → (m'.pmm.zones w).used idx = true := by
    rw [hp]
    refine State.setZone_forall
      (P := fun w zone => ∀ idx, (m.pmm.zones w).used idx = true → zone.used idx = true)
      (fun idx hu => ?_) fun w _ idx hu => hu
    rw [mark_used hb]
    exact Or.inl hu
  have hnew := @Grant.pfn_eq pfn r.count (m.pmm.zones z).freePages z hle
  refine ⟨hlay.trans h.layout, fun w idx hu => ?_, fun g hmem => ?_, fun g hmem f hf => ?_, ?_⟩
  · refine h.clear w idx ?_
    by_contra hc
    rw [Bool.not_eq_false] at hc
    rw [hmono w idx hc] at hu
    exact Bool.noConfusion hu
  · rw [hg, List.mem_cons] at hmem
    rw [hlay.base, hlay.stop]
    rcases hmem with rfl | hmem
    · rw [hnew]
      exact ⟨hb, he⟩
    · exact h.inside g hmem
  · rw [hg, List.mem_cons] at hmem
    rw [hlay.base]
    rcases hmem with rfl | hmem
    · simp only [Grant.Holds, hnew] at hf
      refine ⟨?_, h.clear z _ (hrun.clear f hf.1 hf.2)⟩
      rw [hp, State.setZone_self, mark_used hb]
      refine Or.inr ?_
      change pfn - (m.pmm.zones z).basePfn ≤ f - (m.pmm.zones z).basePfn ∧
        f - (m.pmm.zones z).basePfn < pfn - (m.pmm.zones z).basePfn + r.count
      omega
    · exact ⟨hmono _ _ (h.held g hmem f hf).1, (h.held g hmem f hf).2⟩
  · rw [hg, List.pairwise_cons]
    refine ⟨fun g hmem f hf => ?_, h.disjoint⟩
    simp only [Grant.Holds, hnew] at hf
    exact h.not_held hok hrun hmem hf.1 hf.2

/-- **A free keeps the machine safe**: it changes no bit. -/
theorem Safe.refree {z : ZoneIdx} {pfn : ℕ} (h : Safe mmap m) (hhit : FreeHits m.pmm z pfn)
    (hp : m'.pmm = m.pmm.setZone z ((m.pmm.zones z).refree pfn)) (hg : m'.grants = m.grants) :
    Safe mmap m' := by
  have hlay : SameLayout m'.pmm m.pmm := by
    rw [hp]
    exact SameLayout.setZone refree_basePfn refree_endPfn refree_totalPages
  have hused : ∀ w idx, (m'.pmm.zones w).used idx = (m.pmm.zones w).used idx := by
    rw [hp]
    exact State.setZone_forall
      (P := fun w zone => ∀ idx, zone.used idx = (m.pmm.zones w).used idx)
      (refree_used hhit.2.2) fun _ _ _ => rfl
  obtain ⟨h1, h2, h3, h4, h5⟩ := h
  refine ⟨hlay.trans h1, ?_, ?_, ?_, hg ▸ h5⟩
  · simpa only [hused] using h2
  · simpa only [hg, hlay.base, hlay.stop] using h3
  · simpa only [hg, hused, hlay.base] using h4

theorem Safe.step (h : Safe mmap m) (hok : MapOk mmap) (a : Action) : Safe mmap (m.step a) := by
  have heff := m.step_effect a
  generalize m.step a = m' at heff
  cases heff with
  | none hp hg =>
    obtain ⟨h1, h2, h3, h4, h5⟩ := h
    constructor <;> simp only [hp, hg] <;> assumption
  | alloc r z pfn hrun hp hg => exact h.alloc hok hrun hp hg
  | free cpu addr more z rest ha hpc hhit hp hg => exact h.refree hhit hp hg

theorem safe_run (hok : MapOk mmap) (as : List Action) :
    Safe mmap (runFrom Machine.step (Machine.boot mmap) as) :=
  runFrom_invariant (fun _ a h => h.step hok a) as (safe_boot mmap)

/-! ## The counters -/

/-- The action's increment, if it makes one, does not wrap the counter. -/
def CountFits (m : Machine) : Action → Prop
  | .call _ _ => True
  | .tick cpu =>
    match m.pc cpu with
    | .free addr (z :: _) _ =>
      FreeHits m.pmm z (addr / pageSize) → (m.pmm.zones z).freePages ≠ 2 ^ 64 - 1
    | _ => True

instance : ∀ a, Decidable (CountFits m a)
  | .call _ _ => isTrue trivial
  | .tick cpu =>
    match h : m.pc cpu with
    | .free addr (z :: _) _ =>
      decidable_of_iff (FreeHits m.pmm z (addr / pageSize) →
        (m.pmm.zones z).freePages ≠ 2 ^ 64 - 1) (by simp only [CountFits, h])
    | .idle => isTrue (by simp only [CountFits, h])
    | .gate _ _ _ => isTrue (by simp only [CountFits, h])
    | .locked _ _ _ => isTrue (by simp only [CountFits, h])
    | .free _ [] _ => isTrue (by simp only [CountFits, h])

/-- **Every counter covers its clear bits**, and every decrement so far
found enough. -/
structure Covered (m : Machine) : Prop where
  covers : ∀ z, freeCount (m.pmm.zones z).used (m.pmm.zones z).span ≤ (m.pmm.zones z).freePages
  fits : ∀ z, (m.pmm.zones z).freePages < 2 ^ 64
  enough : ∀ g ∈ m.grants, g.count ≤ g.freeBefore

theorem covered_boot (hok : MapOk mmap) : Covered (Machine.boot mmap) where
  covers z := (hok.initSpec.counted z).ge
  fits z := by
    have h1 := hok.initSpec.free_le z
    have h2 := hok.initSpec.total z
    have h3 := hok.pagesIn_le z
    change ((pmmInit mmap).zones z).freePages < _
    omega
  enough g hg := by simp [Machine.boot] at hg

theorem Covered.step (h : Covered m) (a : Action) (hfit : CountFits m a) :
    Covered (m.step a) := by
  have heff := m.step_effect a
  generalize m.step a = m' at heff
  cases heff with
  | none hp hg =>
    obtain ⟨h1, h2, h3⟩ := h
    constructor <;> simp only [hp, hg] <;> assumption
  | alloc r z pfn hrun hp hg =>
    have hcount := freeCount_mark hrun
    have hcov := h.covers z
    have hsub : sub64 (m.pmm.zones z).freePages r.count = (m.pmm.zones z).freePages - r.count :=
      sub64_of_le (h.fits z) (by omega)
    refine ⟨?_, ?_, fun g hmem => ?_⟩
    · rw [hp]
      refine State.setZone_forall
        (P := fun _ zone => freeCount zone.used zone.span ≤ zone.freePages) ?_ fun w _ => h.covers w
      rw [mark_span, mark_freePages, hsub]
      omega
    · rw [hp]
      refine State.setZone_forall (P := fun _ zone => zone.freePages < 2 ^ 64) ?_ fun w _ => h.fits w
      rw [mark_freePages]
      exact sub64_lt _ _
    · rw [hg, List.mem_cons] at hmem
      rcases hmem with rfl | hmem
      · change r.count ≤ (m.pmm.zones z).freePages
        omega
      · exact h.enough g hmem
  | free cpu addr more z rest ha hpc hhit hp hg =>
    have hroom : (m.pmm.zones z).freePages ≠ 2 ^ 64 - 1 := by
      rw [ha] at hfit
      simp only [CountFits, hpc] at hfit
      exact hfit hhit
    have hlt := h.fits z
    have hadd : add64 (m.pmm.zones z).freePages 1 = (m.pmm.zones z).freePages + 1 :=
      add64_of_lt (by omega)
    refine ⟨?_, ?_, hg ▸ h.enough⟩
    · rw [hp]
      refine State.setZone_forall
        (P := fun _ zone => freeCount zone.used zone.span ≤ zone.freePages) ?_ fun w _ => h.covers w
      rw [refree_span, refree_freePages, hadd, freeCount_congr fun i _ => refree_used hhit.2.2 i]
      have := h.covers z
      omega
    · rw [hp]
      refine State.setZone_forall (P := fun _ zone => zone.freePages < 2 ^ 64) ?_ fun w _ => h.fits w
      rw [refree_freePages]
      exact add64_lt _ _

/-! ## The result -/

/-- A whole page of available memory at or above 1 MB. -/
def AvailableFrame (mmap : List MmapEntry) (f : ℕ) : Prop :=
  0x100000 ≤ pageSize * f ∧ ∃ e ∈ mmap, e.available = true ∧
    ∀ a, pageSize * f ≤ a → a < pageSize * f + pageSize → e.Contains a

/-- A frame whose bit is clear after `pmm_init` is available memory. -/
theorem InitSpec.availableFrame {s : State} (h : InitSpec mmap s) (hok : MapOk mmap)
    {z : ZoneIdx} {idx : ℕ} (hidx : idx < (s.zones z).span)
    (hclear : (s.zones z).used idx = false) :
    AvailableFrame mmap ((s.zones z).basePfn + idx) := by
  have hmem := ((h.clear_iff z idx hidx).1 hclear).1
  obtain ⟨e, he, hav, -, hlo, hhi⟩ := mem_claimed.1 hmem
  have hge := e.lo_ge
  refine ⟨by simp only [pageSize]; omega, e, he, hav, fun a h1 h2 => ?_⟩
  exact MmapEntry.contains_of_frame (hok.below e he hav) hlo hhi h1 h2

/-- **Blocks and counters under every interleaving.** On every map the
firmware can report and in every run of any number of CPUs, every frame
of a block handed out is available memory at or above 1 MB, no frame is
handed out twice, whatever was freed in between, and, as long as no
increment of a counter wraps, no counter is ever lowered below zero. -/
theorem interleaved_grants (hok : MapOk mmap) (as : List Action) :
    (∀ g ∈ (runFrom Machine.step (Machine.boot mmap) as).grants, ∀ f, g.Holds f →
      AvailableFrame mmap f) ∧
    ((runFrom Machine.step (Machine.boot mmap) as).grants.Pairwise fun g h =>
      ∀ f, g.Holds f → ¬ h.Holds f) ∧
    (Allowed Machine.step CountFits (Machine.boot mmap) as →
      ∀ g ∈ (runFrom Machine.step (Machine.boot mmap) as).grants, g.count ≤ g.freeBefore) := by
  have hsafe := safe_run hok as
  refine ⟨fun g hg f hf => ?_, hsafe.disjoint, fun hfits => ?_⟩
  · have hin := hsafe.inside g hg
    have hclear := (hsafe.held g hg f hf).2
    rw [hsafe.layout.base, hsafe.layout.stop] at hin
    rw [hsafe.layout.base] at hclear
    simp only [Grant.Holds] at hf
    have hav := hok.initSpec.availableFrame hok (by simp only [MemoryZone.span]; omega) hclear
    rwa [Nat.add_sub_cancel' (by omega)] at hav
  · exact (hfits.invariant (fun _ a h hfit => h.step a hfit) (covered_boot hok)).enough

/-! ## Where a counter wraps

The free path counts a frame up although it is free already, so freeing
one free frame over and over takes the counter through all its values.
A CPU that read the counter before it wrapped has passed its gate. -/

/-- Two pages at 1 MB. -/
def wrapMap : List MmapEntry := [⟨0x100000, 0x2000, 1⟩]

/-- CPU 1 passes the gate of `ZONE_DMA`, CPU 0 frees the first page
`rounds` times, and CPU 1 goes on. -/
def wrapRun (rounds : ℕ) : List Action :=
  [.call 1 .allocPage, .tick 1, .tick 1, .tick 1] ++
    (List.replicate rounds [Action.call 0 (.freePage 0x100000), .tick 0]).flatten ++
    [.tick 1]

/-- The machine after `n` rounds of CPU 0. -/
structure Spinning (n : ℕ) (m : Machine) : Prop where
  cpu0 : m.pc 0 = .idle
  cpu1 : m.pc 1 = .locked .page .dma []
  base : (m.pmm.zones .dma).basePfn = 0x100
  stop : (m.pmm.zones .dma).endPfn = 0x102
  clear : (m.pmm.zones .dma).used 0 = false
  free : (m.pmm.zones .dma).freePages = (2 + n) % 2 ^ 64

theorem Spinning.round {n : ℕ} (h : Spinning n m) :
    Spinning (n + 1) (runFrom Machine.step m [.call 0 (.freePage 0x100000), .tick 0]) := by
  have hhit : FreeHits m.pmm .dma (0x100000 / pageSize) := by
    refine ⟨?_, ?_, ?_⟩
    · rw [h.base]; decide
    · rw [h.stop]; decide
    · rw [h.base]; exact h.clear
  have heq : runFrom Machine.step m [.call 0 (.freePage 0x100000), .tick 0] =
      { m with
        pmm := m.pmm.setZone .dma ((m.pmm.zones .dma).refree (0x100000 / pageSize))
        pc := Function.update (Function.update m.pc 0 (.free 0x100000 freeOrder 0)) 0 .idle } := by
    simp [Machine.step, h.cpu0, Machine.goto, Call.enter, Machine.tick, freeOrder,
      lockedFree_of_hits hhit, Pc.nextPage]
  rw [heq]
  refine ⟨?_, ?_, ?_, ?_, ?_, ?_⟩
  · simp
  · simpa using h.cpu1
  · simpa using h.base
  · simpa using h.stop
  · rw [State.setZone_self, refree_used hhit.2.2]
    exact h.clear
  · rw [State.setZone_self, refree_freePages, h.free, add64]
    omega

theorem Spinning.rounds {n k : ℕ} (h : Spinning n m) :
    Spinning (n + k) (runFrom Machine.step m
      (List.replicate k [Action.call 0 (.freePage 0x100000), .tick 0]).flatten) := by
  induction k generalizing n m with
  | zero => simpa using h
  | succ k ih =>
    rw [List.replicate_succ, List.flatten_cons, runFrom_append,
      show n + (k + 1) = n + 1 + k by omega]
    exact ih h.round

/-- CPU 1 takes the page and lowers a counter that is zero. -/
theorem Spinning.last {n : ℕ} (h : Spinning n m) (hn : (2 + n) % 2 ^ 64 = 0) :
    ∃ g ∈ (m.step (.tick 1)).grants, g.freeBefore < g.count := by
  have hspan : (m.pmm.zones .dma).span = 2 := by rw [MemoryZone.span, h.base, h.stop]
  have hfind : Request.page.search (m.pmm.zones .dma) = some 0x100 := by
    simp [Request.search, findPage, hspan, h.base, List.range'_succ, h.clear]
  refine ⟨⟨physToVirt (0x100 * pageSize), 1, .dma, (m.pmm.zones .dma).freePages⟩, ?_, ?_⟩
  · simp [Machine.step, Machine.tick, h.cpu1, lockedAlloc, hfind, Request.count]
  · change (m.pmm.zones .dma).freePages < 1
    rw [h.free, hn]
    decide

theorem wrapMap_ok : MapOk wrapMap where
  disjoint := List.pairwise_singleton _ _
  below e he _ := by
    rw [wrapMap, List.mem_singleton] at he
    subst he
    decide

theorem wrapRun_grant {rounds : ℕ} (hwrap : (2 + rounds) % 2 ^ 64 = 0) :
    ∃ g ∈ (runFrom Machine.step (Machine.boot wrapMap) (wrapRun rounds)).grants,
      g.freeBefore < g.count := by
  have hstart : Spinning 0 (runFrom Machine.step (Machine.boot wrapMap)
      [.call 1 .allocPage, .tick 1, .tick 1, .tick 1]) := by
    constructor <;> decide
  have hspin := hstart.rounds (k := rounds)
  rw [Nat.zero_add] at hspin
  rw [wrapRun, runFrom_append, runFrom_append]
  exact hspin.last hwrap

/-- One allocation, with a free by another CPU between its gate and its
locked section. -/
theorem interleaved_grants_two_pages :
    let as : List Action := [.call 0 .allocPage, .call 1 (.freePage 0x101000), .tick 0, .tick 0,
      .tick 0, .tick 1, .tick 0]
    let m := runFrom Machine.step (Machine.boot wrapMap) as
    m.grants = [⟨0xFFFF800000100000, 1, .dma, 3⟩] ∧
      (∀ g ∈ m.grants, ∀ f, g.Holds f → AvailableFrame wrapMap f) ∧
      ∀ g ∈ m.grants, g.count ≤ g.freeBefore := by
  refine ⟨by decide, ?_⟩
  have h := interleaved_grants wrapMap_ok [.call 0 .allocPage, .call 1 (.freePage 0x101000),
    .tick 0, .tick 0, .tick 0, .tick 1, .tick 0]
  exact ⟨h.1, h.2.2 (by decide)⟩

/-- **A counter is lowered below zero**, once it has wrapped. -/
theorem interleaved_grants_wrap : MapOk wrapMap ∧
    ∃ g ∈ (runFrom Machine.step (Machine.boot wrapMap) (wrapRun (2 ^ 64 - 2))).grants,
      g.freeBefore < g.count :=
  ⟨wrapMap_ok, wrapRun_grant (by decide)⟩

end Pmm

end Kos
