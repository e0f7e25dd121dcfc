import Kos.Pmm.Zones
/-!
# Pmm — allocation is first fit

The scan of `pmm_alloc_pages` goes over a zone once and keeps how many
clear frames it has just passed. What makes one pass enough is that the
frames counted are a whole stretch: the frame before them is used, or is
outside the zone. So a run that ended before the present frame would
have been found, and the run found is the lowest. The gate on
`free_pages` skips no zone with such a run while the counter is right.
-/

namespace Kos

namespace Pmm

variable {s : State} {z : ZoneIdx} {zone : MemoryZone} {pfn count : ℕ} {r : Request}

/-! ## The lowest run of a zone -/

/-- **The lowest run of clear frames of a length.** -/
structure MemoryZone.LowestRun (zone : MemoryZone) (pfn count : ℕ) : Prop
    extends zone.FreeRun pfn count where
  least : ∀ q, zone.FreeRun q count → pfn ≤ q

/-- **What the scan knows on coming to the frame `p`**: the `c` frames
before it are clear and begin where the zone does or behind a used one,
and no run has ended yet. -/
structure Scanned (zone : MemoryZone) (count p c : ℕ) : Prop where
  base_le : zone.basePfn + c ≤ p
  clear : ∀ f, p - c ≤ f → f < p → zone.used (f - zone.basePfn) = false
  stretch : p - c = zone.basePfn ∨ zone.used (p - c - 1 - zone.basePfn) = true
  none_yet : ∀ q, zone.FreeRun q count → p < q + count

theorem Scanned.start (zone : MemoryZone) (hc : 0 < count) :
    Scanned zone count zone.basePfn 0 where
  base_le := le_rfl
  clear f h1 h2 := by omega
  stretch := Or.inl rfl
  none_yet q hq := by have := hq.base_le; omega

/-- A used frame ends the stretch. -/
theorem Scanned.used {p c : ℕ} (h : Scanned zone count p c) (hc : 0 < count)
    (hu : zone.used (p - zone.basePfn) = true) : Scanned zone count (p + 1) 0 where
  base_le := by have := h.base_le; omega
  clear f h1 h2 := by omega
  stretch := Or.inr hu
  none_yet q hq := by
    have hlt := h.none_yet q hq
    by_contra hle
    have hclear := hq.clear p (by omega) (by omega)
    rw [hu] at hclear
    cases hclear

/-- A clear frame makes the stretch longer. -/
theorem Scanned.free {p c : ℕ} (h : Scanned zone count p c) (hshort : c + 1 < count)
    (hu : zone.used (p - zone.basePfn) = false) : Scanned zone count (p + 1) (c + 1) where
  base_le := by have := h.base_le; omega
  clear f h1 h2 := by
    rcases Nat.lt_or_ge f p with hf | hf
    · exact h.clear f (by omega) hf
    · rw [show f = p by omega]
      exact hu
  stretch := by
    rw [Nat.add_sub_add_right]
    exact h.stretch
  none_yet q hq := by
    -- a run that ends with `p` would reach past the start of the stretch
    have hbase := h.base_le
    have hlt := h.none_yet q hq
    have hq' := hq.base_le
    by_contra hle
    rcases h.stretch with heq | hbefore
    · omega
    · have hclear := hq.clear (p - c - 1) (by omega) (by omega)
      rw [hbefore] at hclear
      cases hclear

/-- The frame that completes the stretch. -/
theorem Scanned.found {p c : ℕ} (h : Scanned zone count p c) (hlast : c + 1 = count)
    (hu : zone.used (p - zone.basePfn) = false) (hend : p < zone.endPfn) :
    zone.LowestRun (p - c) count where
  base_le := by have := h.base_le; omega
  le_end := by have := h.base_le; omega
  clear f h1 h2 := by
    have hbase := h.base_le
    rcases Nat.lt_or_ge f p with hf | hf
    · exact h.clear f h1 hf
    · rw [show f = p by omega]
      exact hu
  least q hq := by
    have hlt := h.none_yet q hq
    omega

/-- **The scan finds the lowest run, if there is one.** -/
theorem scanRun_spec {n : ℕ} : ∀ {p c st : ℕ}, p + n = zone.endPfn → Scanned zone count p c →
    (0 < c → st + c = p) → c < count →
    match scanRun zone count (List.range' p n) c st with
    | some pfn => zone.LowestRun pfn count
    | none => ∀ q, ¬ zone.FreeRun q count := by
  induction n with
  | zero =>
    intro p c st hend h _ _ q hq
    have hlt := h.none_yet q hq
    have hle := hq.le_end
    omega
  | succ n ih =>
    intro p c st hend h hst hc
    rw [List.range'_succ, scanRun]
    by_cases hu : zone.used (p - zone.basePfn) = true
    · rw [if_neg (by rw [hu]; decide)]
      exact ih (by omega) (h.used (by omega) hu) (by omega) (by omega)
    · have hfree : zone.used (p - zone.basePfn) = false := by simpa using hu
      rw [if_pos (by rw [hfree]; rfl)]
      -- `start_pfn` is set where a run begins and kept while it goes on
      have hst' : (if c = 0 then p else st) + (c + 1) = p + 1 := by
        split <;> omega
      by_cases hdone : c + 1 ≥ count
      · rw [if_pos hdone]
        have hfound := h.found (by omega) hfree (by omega)
        rw [show p - c = if c = 0 then p else st by omega] at hfound
        exact hfound
      · rw [if_neg hdone]
        exact ih (by omega) (h.free (by omega) hfree) (fun _ => hst') (by omega)

theorem findRun_spec (zone : MemoryZone) (hc : 0 < count) :
    match findRun count zone with
    | some pfn => zone.LowestRun pfn count
    | none => ∀ q, ¬ zone.FreeRun q count := by
  rcases Nat.le_total zone.endPfn zone.basePfn with hle | hle
  · have hspan : zone.span = 0 := Nat.sub_eq_zero_of_le hle
    rw [findRun, hspan]
    intro q hq
    have h1 := hq.base_le
    have h2 := hq.le_end
    omega
  · have hspan : zone.basePfn + zone.span = zone.endPfn := Nat.add_sub_cancel' hle
    exact scanRun_spec hspan (Scanned.start zone hc) (by omega) hc

/-- With one frame to find, the scan stops at the first that is clear. -/
theorem scanRun_one (l : List ℕ) (st : ℕ) :
    scanRun zone 1 l 0 st = l.find? fun pfn => !zone.used (pfn - zone.basePfn) := by
  induction l generalizing st with
  | nil => rfl
  | cons pfn l ih =>
    rw [scanRun, List.find?_cons]
    cases hu : zone.used (pfn - zone.basePfn) with
    | true => exact ih st
    | false => rfl

theorem findPage_eq (zone : MemoryZone) : findPage zone = findRun 1 zone :=
  (scanRun_one (List.range' zone.basePfn zone.span) 0).symm

/-- A run takes up clear bits of the zone. -/
theorem MemoryZone.FreeRun.le_freeCount (h : zone.FreeRun pfn count) :
    count ≤ freeCount zone.used zone.span := by
  have := freeCount_mark h
  omega

/-! ## The zones in order -/

/-- **A zone in which a request finds a block**: it passes the gate, and
the search ends at `pfn`. -/
def Request.Finds (r : Request) (zone : MemoryZone) (pfn : ℕ) : Prop :=
  r.skips zone.freePages = false ∧ r.search zone = some pfn

/-- **The block a request takes**: the one it finds in the first zone of a
list that has one. -/
def Request.block (r : Request) (s : State) : List ZoneIdx → Option (ZoneIdx × ℕ)
  | [] => none
  | z :: zs =>
    if r.skips (s.zones z).freePages then r.block s zs
    else
      match r.search (s.zones z) with
      | some pfn => some (z, pfn)
      | none => r.block s zs

/-- The zone loop marks the block. -/
theorem allocFrom_eq (r : Request) (zs : List ZoneIdx) (s : State) :
    allocFrom r zs s =
      match r.block s zs with
      | some (z, pfn) =>
        (s.setZone z ((s.zones z).mark pfn r.count), physToVirt (pfn * pageSize))
      | none => (s, 0) := by
  induction zs with
  | nil => rfl
  | cons z zs ih =>
    rw [allocFrom, Request.block, lockedAlloc]
    split
    · exact ih
    · cases r.search (s.zones z) with
      | none => exact ih
      | some pfn => rfl

theorem block_of_finds {zs : List ZoneIdx} (h : r.Finds (s.zones z) pfn) :
    r.block s (z :: zs) = some (z, pfn) := by
  rw [Request.block, if_neg (by rw [h.1]; decide), h.2]

theorem block_of_not_finds {zs : List ZoneIdx} (h : ∀ pfn, ¬ r.Finds (s.zones z) pfn) :
    r.block s (z :: zs) = r.block s zs := by
  rw [Request.block]
  cases hgate : r.skips (s.zones z).freePages with
  | true => rw [if_pos rfl]
  | false =>
    rw [if_neg (by decide)]
    cases hfind : r.search (s.zones z) with
    | none => rfl
    | some pfn => exact absurd ⟨hgate, hfind⟩ (h pfn)

/-- **The first zone with a block, the zones from the highest down.** -/
structure Request.Chooses (r : Request) (s : State) (z : ZoneIdx) (pfn : ℕ) : Prop where
  finds : r.Finds (s.zones z) pfn
  first : ∀ w, z.rank < w.rank → ∀ q, ¬ r.Finds (s.zones w) q

/-- **The block is that of the first zone that has one**, or no zone has. -/
theorem block_chooses (r : Request) (s : State) :
    (∃ z pfn, r.Chooses s z pfn ∧ r.block s allocOrder = some (z, pfn)) ∨
      ((∀ z pfn, ¬ r.Finds (s.zones z) pfn) ∧ r.block s allocOrder = none) := by
  rw [allocOrder]
  -- the zones are tried in the order of the loop, and the first that finds is taken
  by_cases hnormal : ∃ pfn, r.Finds (s.zones .normal) pfn
  · obtain ⟨pfn, hfinds⟩ := hnormal
    refine Or.inl ⟨.normal, pfn, ⟨hfinds, fun w hw => ?_⟩, block_of_finds hfinds⟩
    cases w <;> exact absurd hw (by decide)
  rw [not_exists] at hnormal
  rw [block_of_not_finds hnormal]
  by_cases hdma32 : ∃ pfn, r.Finds (s.zones .dma32) pfn
  · obtain ⟨pfn, hfinds⟩ := hdma32
    refine Or.inl ⟨.dma32, pfn, ⟨hfinds, fun w hw => ?_⟩, block_of_finds hfinds⟩
    cases w with
    | normal => exact hnormal
    | dma32 => exact absurd hw (by decide)
    | dma => exact absurd hw (by decide)
  rw [not_exists] at hdma32
  rw [block_of_not_finds hdma32]
  by_cases hdma : ∃ pfn, r.Finds (s.zones .dma) pfn
  · obtain ⟨pfn, hfinds⟩ := hdma
    refine Or.inl ⟨.dma, pfn, ⟨hfinds, fun w hw => ?_⟩, block_of_finds hfinds⟩
    cases w with
    | normal => exact hnormal
    | dma32 => exact hdma32
    | dma => exact absurd hw (by decide)
  rw [not_exists] at hdma
  rw [block_of_not_finds hdma]
  refine Or.inr ⟨fun z => ?_, rfl⟩
  cases z with
  | normal => exact hnormal
  | dma32 => exact hdma32
  | dma => exact hdma

/-- **The zone loop takes the block of the first zone that has one**, or
goes past all zones. -/
theorem allocFrom_chooses (r : Request) (s : State) :
    (∃ z pfn, r.Chooses s z pfn ∧ allocFrom r allocOrder s =
      (s.setZone z ((s.zones z).mark pfn r.count), physToVirt (pfn * pageSize))) ∨
    ((∀ z pfn, ¬ r.Finds (s.zones z) pfn) ∧ allocFrom r allocOrder s = (s, 0)) := by
  rw [allocFrom_eq]
  rcases block_chooses r s with ⟨z, pfn, hchoice, hblock⟩ | ⟨hnone, hblock⟩
  · rw [hblock]
    exact Or.inl ⟨z, pfn, hchoice, rfl⟩
  · rw [hblock]
    exact Or.inr ⟨hnone, rfl⟩

/-- **Every counter is the number of clear bits**, and fits its field. -/
structure State.Counted (s : State) : Prop where
  counted : ∀ z, (s.zones z).freePages = freeCount (s.zones z).used (s.zones z).span
  fits : ∀ z, (s.zones z).freePages < 2 ^ 64

/-- **The block a first fit takes**: the lowest run of the first zone that
has one, the zones from the highest down. -/
structure FirstFit (s : State) (count : ℕ) (z : ZoneIdx) (pfn : ℕ) : Prop where
  lowest : (s.zones z).LowestRun pfn count
  first : ∀ w, z.rank < w.rank → ∀ q, ¬ (s.zones w).FreeRun q count

/-- There is one first fit at most. -/
theorem FirstFit.unique {z' : ZoneIdx} {pfn' : ℕ} (h : FirstFit s count z pfn)
    (h' : FirstFit s count z' pfn') : z' = z ∧ pfn' = pfn := by
  have hrun := h.lowest.toFreeRun
  have hrun' := h'.lowest.toFreeRun
  rcases Nat.lt_trichotomy z.rank z'.rank with hlt | heq | hlt
  · exact absurd hrun' (h.first z' hlt pfn')
  · obtain rfl := ZoneIdx.rank_inj heq
    exact ⟨rfl, Nat.le_antisymm (h'.lowest.least pfn hrun) (h.lowest.least pfn' hrun')⟩
  · exact absurd hrun (h'.first z hlt pfn)

/-- A page is a run of one frame. -/
theorem Request.page_finds_iff :
    Request.page.Finds zone pfn ↔ (Request.pages 1).Finds zone pfn := by
  have hgate : Request.page.skips zone.freePages = (Request.pages 1).skips zone.freePages := by
    rw [Request.skips, Request.skips, Bool.eq_iff_iff, beq_iff_eq, decide_eq_true_iff]
    omega
  rw [Request.Finds, Request.Finds, hgate, Request.search, Request.search, findPage_eq]

theorem Request.page_chooses_iff :
    Request.page.Chooses s z pfn ↔ (Request.pages 1).Chooses s z pfn := by
  constructor
  · rintro ⟨hfinds, hfirst⟩
    exact ⟨page_finds_iff.1 hfinds, fun w hw q hq => hfirst w hw q (page_finds_iff.2 hq)⟩
  · rintro ⟨hfinds, hfirst⟩
    exact ⟨page_finds_iff.2 hfinds, fun w hw q hq => hfirst w hw q (page_finds_iff.1 hq)⟩

/-- What the request finds is the lowest run of the zone. -/
theorem Request.Finds.lowestRun (h : (Request.pages count).Finds zone pfn) (hc : 0 < count) :
    zone.LowestRun pfn count := by
  have hspec := findRun_spec zone hc
  have hfind : findRun count zone = some pfn := h.2
  rwa [hfind] at hspec

/-- Where the counters are right, a zone with a run passes the gate. -/
theorem State.Counted.finds_of_freeRun (h : s.Counted) (hc : 0 < count) {q : ℕ}
    (hrun : (s.zones z).FreeRun q count) : ∃ pfn, (Request.pages count).Finds (s.zones z) pfn := by
  have hle := hrun.le_freeCount
  rw [← h.counted z] at hle
  have hspec := findRun_spec (s.zones z) hc
  cases hfind : findRun count (s.zones z) with
  | none =>
    rw [hfind] at hspec
    exact absurd hrun (hspec q)
  | some pfn =>
    refine ⟨pfn, ?_, hfind⟩
    rw [Request.skips, decide_eq_false_iff_not]
    omega

theorem State.Counted.firstFit (h : s.Counted) (hc : 0 < count)
    (hchoice : (Request.pages count).Chooses s z pfn) : FirstFit s count z pfn where
  lowest := hchoice.finds.lowestRun hc
  first w hw q hq := by
    obtain ⟨pfn, hfinds⟩ := h.finds_of_freeRun hc hq
    exact hchoice.first w hw pfn hfinds

end Pmm

end Kos
