import Kos.Common.Cached
import Kos.Vmm.Refinement
/-!
# Vmm — what a TLB may still hold

Several processors run on one hierarchy, and any of them may have loaded
any translation the tables gave since it last invalidated it.
`vmm_map_page`, `vmm_map_huge_page` and `vmm_unmap_page` call `invlpg` on
the processor they run on and on no other, for the one address they were
called with. So the TLBs keep to the tables exactly in the runs in which
no call takes a translation away from another processor, and no huge page
takes the place of mapped pages besides the one it was called with.

A TLB keeps a translation by the page it is of, and `invlpg` drops those
that cover its address, of either size. Calls are taken one at a time.
-/

namespace Kos

namespace Vmm

open Radix

variable {ι : Type*} {tables : Tables ℕ} {root virt : ℕ}

/-! ## Translations and the TLB -/

/-- The page a translation is of: a frame of a region, or all of it. -/
inductive Slot
  | page (region frame : ℕ)
  | huge (region : ℕ)
  deriving DecidableEq, Repr

def Slot.region : Slot → ℕ
  | .page region _ => region
  | .huge region => region

/-- An address of the page. -/
def Slot.Covers : Slot → ℕ → Prop
  | .page region frame, virt => regionOf virt = region ∧ frameOf virt = frame
  | .huge region, virt => regionOf virt = region

/-- The physical address of an address of the page, which is at `base`. -/
def Slot.translate : Slot → ℕ → ℕ → ℕ
  | .page _ _, base, virt => base + virt % pageSize
  | .huge _, base, virt => base + virt % hugePageSize

/-- Where a region has a page. -/
def Region.leaf : Region → Slot → Option ℕ
  | .table frames, .page _ frame => frames frame
  | .huge base, .huge _ => some base
  | _, _ => none

def Space.leaf (a : Space) (slot : Slot) : Option ℕ :=
  if slot.region < 2 ^ 27 then (a slot.region).leaf slot else none

/-- **What a processor loads**: what the tables say of the page. -/
def loaded (root : ℕ) (w : World) (slot : Slot) : Option ℕ :=
  Space.leaf (absRegion w.tables root) slot

/-- The addresses `vmm_unmap_page` calls `invlpg` with. -/
def unmapInvlpg (tables : Tables ℕ) (pml4 virt : ℕ) : List ℕ :=
  if !isPresent (tables pml4 (pml4Index virt)) then []
  else
    let pdpt := tableOf (tables pml4 (pml4Index virt))
    if !isPresent (tables pdpt (pdptIndex virt)) then []
    else
      let pd := tableOf (tables pdpt (pdptIndex virt))
      if !isPresent (tables pd (pdIndex virt)) then [] else [virt]

/-- The addresses a call calls `invlpg` with, a repetition left out: both
maps end with one for the address they were called with. -/
def invlpg (tables : Tables ℕ) (root : ℕ) : Op → List ℕ
  | .mapPage virt phys flags pmm =>
    if (vmmMapPage ⟨tables, pmm⟩ root virt phys flags).1 then [virt] else []
  | .mapHugePage virt phys flags pmm =>
    if (vmmMapHugePage ⟨tables, pmm⟩ root virt phys flags).1 then [virt] else []
  | .unmapPage virt => unmapInvlpg tables root virt

/-- A call of a processor, as both sides of `World` see it. -/
abbrev next (root : ℕ) (w : World) (a : ι × Op) : World := w.step root a.2

/-- What a call has a processor drop from its TLB. -/
def drops (root : ℕ) (w : World) (a : ι × Op) (i : ι) (slot : Slot) : Prop :=
  i = a.1 ∧ ∃ virt ∈ invlpg w.tables root a.2, slot.Covers virt

/-- The tables, and what the TLB of each processor may hold. -/
abbrev Cpus (ι : Type*) : Type _ := Cached World ι Slot ℕ

/-- One call on one processor. -/
abbrev Cpus.step (root : ℕ) (c : Cpus ι) (a : ι × Op) : Cpus ι :=
  Cached.step (next root) (loaded root) (drops root) c a

/-- **Every TLB keeps to the tables.** -/
abbrev Cpus.Coherent (root : ℕ) (c : Cpus ι) : Prop := Cached.Coherent (loaded root) c

/-- Empty tables, and TLBs with nothing in them. -/
def Cpus.start (ι : Type*) (tables : Tables ℕ) : Cpus ι :=
  ⟨⟨tables, fun _ => .empty⟩, fun _ _ => ∅⟩

/-- **A call that leaves no TLB behind.** On the only processor a map or
an unmap is; on others nothing may be taken away. A huge page has the
processor that maps it drop one page of those it replaces. -/
def Safe (root : ℕ) (w : World) (a : ι × Op) : Prop :=
  match a.2 with
  | .mapPage virt phys flags pmm =>
    (call w.tables root (.mapPage virt phys flags pmm)).1 = true →
      (∀ i, i = a.1) ∨
        ∀ base, (w.space (regionOf virt)).frames (frameOf virt) = some base →
          base = roundTo pageSize phys
  | .mapHugePage virt phys flags pmm =>
    (call w.tables root (.mapHugePage virt phys flags pmm)).1 = true →
      (∀ frame, frame ≠ frameOf virt → (w.space (regionOf virt)).frames frame = none) ∧
        ((∀ i, i = a.1) ∨
          (w.space (regionOf virt)).frames (frameOf virt) = none ∧
            ∀ base, w.space (regionOf virt) = .huge base → base = roundTo hugePageSize phys)
  | .unmapPage virt =>
    (∀ i, i = a.1) ∨
      (w.space (regionOf virt)).frames (frameOf virt) = none ∧
        ∀ base, w.space (regionOf virt) ≠ .huge base

/-! ## What the tables say of a page -/

@[simp] theorem Region.leaf_page (r : Region) (region frame : ℕ) :
    r.leaf (.page region frame) = r.frames frame := by
  cases r <;> rfl

theorem Region.leaf_huge_iff {r : Region} {region base : ℕ} :
    r.leaf (.huge region) = some base ↔ r = .huge base := by
  cases r <;> simp [Region.leaf]

theorem World.Inv.loaded_eq {w : World} (h : w.Inv root) (slot : Slot) :
    loaded root w slot = w.space.leaf slot := by
  simp only [loaded, Space.leaf]
  split
  · rename_i hlt
    rw [h.regions _ hlt]
  · rfl

/-- **A translation the tables give is the one `vmm_get_phys` computes.** -/
theorem Wf.vmmGetPhys_of_leaf (h : Wf tables root) {slot : Slot} {base : ℕ}
    (hcov : slot.Covers virt) (hbase : Space.leaf (absRegion tables root) slot = some base) :
    slot.translate base virt = vmmGetPhys tables root virt := by
  have hlt := regionOf_lt virt
  rw [h.vmmGetPhys_eq]
  cases slot with
  | page region frame =>
    obtain ⟨rfl, rfl⟩ := hcov
    rw [Space.leaf, Slot.region, if_pos hlt, Region.leaf_page] at hbase
    cases hr : absRegion tables root (regionOf virt) with
    | table frames =>
      rw [hr, Region.frames] at hbase
      rw [Region.translate, hbase]
      rfl
    | _ => rw [hr] at hbase; cases hbase
  | huge region =>
    obtain rfl : regionOf virt = region := hcov
    rw [Space.leaf, Slot.region, if_pos hlt, Region.leaf_huge_iff] at hbase
    rw [hbase]
    rfl

/-- An unmap invalidates its address if the walk ends at an entry. -/
theorem Wf.unmapInvlpg_eq (h : Wf tables root) (virt : ℕ) :
    unmapInvlpg tables root virt =
      match absRegion tables root (regionOf virt) with
      | .empty => []
      | _ => [virt] := by
  rw [absRegion, h.walk_dir, unmapInvlpg, ← pdIndex_eq]
  split
  · rfl
  · simp only
    split
    · rfl
    · generalize tableOf (tables (tableOf (tables root (pml4Index virt))) (pdptIndex virt)) = pd
      simp only [entryRegion]
      split
      · rfl
      · cases isHuge (tables pd (pdIndex virt)) <;> rfl

/-- A page of the region goes, or all of it. -/
theorem Region.frames_unmapPage (r : Region) (i frame : ℕ) :
    (r.unmapPage i).frames frame = if frame = i then none else r.frames frame := by
  cases r with
  | table frames => exact Function.update_apply ..
  | _ => split <;> rfl

theorem Region.unmapPage_ne_huge (r : Region) (i base : ℕ) : r.unmapPage i ≠ .huge base := by
  cases r <;> exact Region.noConfusion

/-! ## Which calls are announced -/

/-- A call that means nothing takes nothing away. -/
theorem announced_of_space_eq {w : World} {c : ι} {op : Op} (h : w.Inv root)
    (hop : Permitted root w op) (hspace : (w.step root op).space = w.space) :
    Cached.Announced (next root) (loaded root) ι (drops root) w (c, op) := by
  intro i slot base hbase
  rw [h.loaded_eq] at hbase
  rw [(h.step hop).loaded_eq, hspace]
  exact Or.inl hbase

/-- A call that failed means nothing. -/
theorem World.step_space_of_failed {w : World} {op : Op} (hok : (call w.tables root op).1 = false) :
    (w.step root op).space = w.space := by
  rw [World.step, hok]
  rfl

/-- **A call that changes one region** and invalidates one address of it
is announced exactly if no page of the region is taken away, but those of
the address on the only processor. -/
theorem announced_iff_of_update {w : World} {c : ι} {op : Op} {r : Region} (h : w.Inv root)
    (hop : Permitted root w op) (hinv : invlpg w.tables root op = [virt])
    (hspace : (w.step root op).space = Function.update w.space (regionOf virt) r) :
    Cached.Announced (next root) (loaded root) ι (drops root) w (c, op) ↔
      ∀ slot base, slot.region = regionOf virt →
        (w.space (regionOf virt)).leaf slot = some base →
          r.leaf slot = some base ∨ (∀ i, i = c) ∧ slot.Covers virt := by
  have hlt := regionOf_lt virt
  have hdrops : ∀ (i : ι) slot, drops root w (c, op) i slot ↔ i = c ∧ slot.Covers virt := by
    intro i slot
    simp only [drops, hinv, List.mem_singleton, exists_eq_left]
  simp only [Cached.Announced, h.loaded_eq, (h.step hop).loaded_eq, hspace, hdrops, Space.leaf]
  constructor
  · intro hann slot base hslot hbase
    have hleft : ∀ i : ι, r.leaf slot = some base ∨ i = c ∧ slot.Covers virt := by
      intro i
      have hi := hann i slot base
      rw [hslot, if_pos hlt, if_pos hlt, Function.update_self] at hi
      exact hi hbase
    by_cases hleaf : r.leaf slot = some base
    · exact Or.inl hleaf
    · exact Or.inr ⟨fun i => ((hleft i).resolve_left hleaf).1, ((hleft c).resolve_left hleaf).2⟩
  · intro hall i slot base hbase
    by_cases hslot : slot.region = regionOf virt
    · rw [hslot, if_pos hlt] at hbase ⊢
      rw [Function.update_self]
      exact (hall slot base hslot hbase).imp_right fun ⟨halone, hcov⟩ => ⟨halone i, hcov⟩
    · rw [Function.update_of_ne hslot]
      exact Or.inl hbase

theorem announced_mapPage_iff {w : World} {c : ι} {phys flags : ℕ} {pmm : List ℕ}
    (h : w.Inv root) (hop : Permitted root w (.mapPage virt phys flags pmm)) :
    Cached.Announced (next root) (loaded root) ι (drops root) w (c, .mapPage virt phys flags pmm) ↔
      Safe root w (c, .mapPage virt phys flags pmm) := by
  have hnh : ∀ base, w.space (regionOf virt) ≠ .huge base := hop.2.2
  cases hok : (call w.tables root (.mapPage virt phys flags pmm)).1 with
  | false =>
    refine iff_of_true (announced_of_space_eq h hop (World.step_space_of_failed hok)) fun hc => ?_
    rw [hok] at hc
    cases hc
  | true =>
    have hspace : (w.step root (.mapPage virt phys flags pmm)).space =
        Function.update w.space (regionOf virt)
          ((w.space (regionOf virt)).mapPage (frameOf virt) phys) := by
      rw [World.step, hok]
      rfl
    rw [announced_iff_of_update h hop (if_pos hok) hspace]
    constructor
    · intro hall _
      by_cases halone : ∀ i, i = c
      · exact Or.inl halone
      · refine Or.inr fun base hbase => ?_
        have hleaf := hall (.page (regionOf virt) (frameOf virt)) base rfl
          (by rw [Region.leaf_page, hbase])
        have hnew := hleaf.resolve_right fun hc => halone hc.1
        rw [Region.leaf_page, Region.mapPage, Region.frames, Function.update_self] at hnew
        exact (Option.some.inj hnew).symm
    · intro hsafe slot base hslot hbase
      cases slot with
      | huge region => exact absurd (Region.leaf_huge_iff.1 hbase) (hnh base)
      | page region frame =>
        obtain rfl : region = regionOf virt := hslot
        rw [Region.leaf_page] at hbase ⊢
        rw [Region.mapPage, Region.frames]
        by_cases hframe : frame = frameOf virt
        · subst hframe
          rw [Function.update_self]
          obtain halone | hsame := hsafe hok
          · exact Or.inr ⟨halone, rfl, rfl⟩
          · exact Or.inl (congrArg some (hsame base hbase).symm)
        · rw [Function.update_of_ne hframe]
          exact Or.inl hbase

theorem announced_mapHugePage_iff {w : World} {c : ι} {phys flags : ℕ} {pmm : List ℕ}
    (h : w.Inv root) (hop : Permitted root w (.mapHugePage virt phys flags pmm)) :
    Cached.Announced (next root) (loaded root) ι (drops root) w
        (c, .mapHugePage virt phys flags pmm) ↔
      Safe root w (c, .mapHugePage virt phys flags pmm) := by
  cases hok : (call w.tables root (.mapHugePage virt phys flags pmm)).1 with
  | false =>
    refine iff_of_true (announced_of_space_eq h hop (World.step_space_of_failed hok)) fun hc => ?_
    rw [hok] at hc
    cases hc
  | true =>
    have hspace : (w.step root (.mapHugePage virt phys flags pmm)).space =
        Function.update w.space (regionOf virt) (.huge (roundTo hugePageSize phys)) := by
      rw [World.step, hok]
      rfl
    rw [announced_iff_of_update h hop (if_pos hok) hspace]
    constructor
    · intro hall _
      -- no page of the old table is left, so what there was is dropped
      have hpage : ∀ frame base, (w.space (regionOf virt)).frames frame = some base →
          (∀ i, i = c) ∧ frameOf virt = frame := by
        intro frame base hbase
        have hleaf := hall (.page (regionOf virt) frame) base rfl (by rw [Region.leaf_page, hbase])
        obtain ⟨halone, -, hframe⟩ := hleaf.resolve_left nofun
        exact ⟨halone, hframe⟩
      refine ⟨fun frame hne => Option.eq_none_iff_forall_ne_some.2 fun base hbase =>
        hne (hpage frame base hbase).2.symm, ?_⟩
      by_cases halone : ∀ i, i = c
      · exact Or.inl halone
      · refine Or.inr ⟨Option.eq_none_iff_forall_ne_some.2 fun base hbase =>
          halone (hpage _ base hbase).1, fun base hbase => ?_⟩
        have hleaf := hall (.huge (regionOf virt)) base rfl (Region.leaf_huge_iff.2 hbase)
        have hnew := hleaf.resolve_right fun hc => halone hc.1
        exact (Option.some.inj hnew).symm
    · intro hsafe slot base hslot hbase
      obtain ⟨hothers, hown⟩ := hsafe hok
      cases slot with
      | page region frame =>
        obtain rfl : region = regionOf virt := hslot
        rw [Region.leaf_page] at hbase
        have hframe : frame = frameOf virt := by
          by_contra hne
          rw [hothers frame hne] at hbase
          cases hbase
        subst hframe
        obtain halone | ⟨hnone, -⟩ := hown
        · exact Or.inr ⟨halone, rfl, rfl⟩
        · rw [hnone] at hbase
          cases hbase
      | huge region =>
        obtain rfl : region = regionOf virt := hslot
        obtain halone | ⟨-, hsame⟩ := hown
        · exact Or.inr ⟨halone, rfl⟩
        · exact Or.inl (congrArg some (hsame base (Region.leaf_huge_iff.1 hbase)).symm)

theorem announced_unmapPage_iff {w : World} {c : ι} (h : w.Inv root)
    (hop : Permitted root w (.unmapPage virt)) :
    Cached.Announced (next root) (loaded root) ι (drops root) w (c, .unmapPage virt) ↔
      Safe root w (c, .unmapPage virt) := by
  have hspace : (w.step root (.unmapPage virt)).space =
      Function.update w.space (regionOf virt)
        ((w.space (regionOf virt)).unmapPage (frameOf virt)) := rfl
  have hinv : invlpg w.tables root (.unmapPage virt) = _ := h.wf.unmapInvlpg_eq virt
  rw [h.regions _ (regionOf_lt virt)] at hinv
  by_cases hempty : w.space (regionOf virt) = .empty
  · -- the walk ends early, and nothing was there
    rw [hempty] at hspace
    have hsame : (w.step root (.unmapPage virt)).space = w.space := by
      rw [hspace, Region.unmapPage, ← hempty, Function.update_eq_self]
      exact fun _ => Region.noConfusion
    refine iff_of_true (announced_of_space_eq h hop hsame) (Or.inr ⟨?_, ?_⟩)
    · rw [hempty]
      rfl
    · rw [hempty]
      exact fun _ => Region.noConfusion
  · have hone : invlpg w.tables root (.unmapPage virt) = [virt] := by
      rw [hinv]
      cases hr : w.space (regionOf virt) with
      | empty => exact absurd hr hempty
      | _ => rfl
    rw [announced_iff_of_update h hop hone hspace]
    constructor
    · intro hall
      by_cases halone : ∀ i, i = c
      · exact Or.inl halone
      · refine Or.inr ⟨Option.eq_none_iff_forall_ne_some.2 fun base hbase => ?_,
          fun base hbase => ?_⟩
        · have hleaf := hall (.page (regionOf virt) (frameOf virt)) base rfl
            (by rw [Region.leaf_page, hbase])
          have hgone := hleaf.resolve_right fun hc => halone hc.1
          rw [Region.leaf_page, Region.frames_unmapPage, if_pos rfl] at hgone
          cases hgone
        · have hleaf := hall (.huge (regionOf virt)) base rfl (Region.leaf_huge_iff.2 hbase)
          have hgone := hleaf.resolve_right fun hc => halone hc.1
          exact Region.unmapPage_ne_huge _ _ _ (Region.leaf_huge_iff.1 hgone)
    · intro hsafe slot base hslot hbase
      cases slot with
      | page region frame =>
        obtain rfl : region = regionOf virt := hslot
        rw [Region.leaf_page] at hbase ⊢
        rw [Region.frames_unmapPage]
        by_cases hframe : frame = frameOf virt
        · subst hframe
          obtain halone | ⟨hnone, -⟩ := hsafe
          · exact Or.inr ⟨halone, rfl, rfl⟩
          · rw [hnone] at hbase
            cases hbase
        · rw [if_neg hframe]
          exact Or.inl hbase
      | huge region =>
        obtain rfl : region = regionOf virt := hslot
        obtain halone | ⟨-, hnh⟩ := hsafe
        · exact Or.inr ⟨halone, rfl⟩
        · exact absurd (Region.leaf_huge_iff.1 hbase) (hnh base)

/-- **A permitted call is announced exactly if it is safe.** -/
theorem announced_iff_safe {w : World} {a : ι × Op} (h : w.Inv root)
    (hop : Permitted root w a.2) :
    Cached.Announced (next root) (loaded root) ι (drops root) w a ↔ Safe root w a := by
  obtain ⟨c, op⟩ := a
  cases op with
  | mapPage virt phys flags pmm => exact announced_mapPage_iff h hop
  | mapHugePage virt phys flags pmm => exact announced_mapHugePage_iff h hop
  | unmapPage virt => exact announced_unmapPage_iff h hop

/-! ## Runs -/

/-- The permitted calls of a run, whatever processor makes them. -/
abbrev Calls (root : ℕ) (w : World) (ops : List (ι × Op)) : Prop :=
  Allowed (next root) (fun w a => Permitted root w a.2) w ops

/-- **Every TLB keeps to the tables in every state of a run exactly if
every call of it is safe**; and then whatever a TLB may answer for any
address is what `vmm_get_phys` answers. -/
theorem tlb_coherent_iff (hword : ∀ t i, tables t i < 2 ^ 64) (hzero : ∀ i, tables root i = 0)
    {ops : List (ι × Op)} (h : Calls root ⟨tables, fun _ => .empty⟩ ops) :
    (Allowed (next root) (Safe root) ⟨tables, fun _ => .empty⟩ ops ↔
      ∀ n, (runFrom (Cpus.step root) (Cpus.start ι tables) (ops.take n)).Coherent root) ∧
    (Allowed (next root) (Safe root) ⟨tables, fun _ => .empty⟩ ops →
      ∀ (i : ι) (virt : ℕ) (slot : Slot), slot.Covers virt →
        ∀ base ∈ (runFrom (Cpus.step root) (Cpus.start ι tables) ops).may i slot,
          slot.translate base virt =
            vmmGetPhys (runFrom (next root) ⟨tables, fun _ => .empty⟩ ops).tables root virt) := by
  have hstart : World.Inv root (Cpus.start ι tables).store := World.Inv.zeroed hword hzero
  have hstep : ∀ (w : World) (a : ι × Op), w.Inv root → Permitted root w a.2 →
      (next root w a).Inv root := fun w a => World.Inv.step
  -- at first there is nothing to load and nothing is held
  have hreadable : Cached.Readable (loaded root) (Cpus.start ι tables) := by
    intro i slot base hbase
    rw [hstart.loaded_eq, Space.leaf] at hbase
    split at hbase <;> cases hbase
  have hcoherent : (Cpus.start ι tables).Coherent root := fun _ _ _ hv => absurd hv id
  have hiff : Allowed (next root) (Safe root) ⟨tables, fun _ => .empty⟩ ops ↔
      ∀ n, (runFrom (Cpus.step root) (Cpus.start ι tables) (ops.take n)).Coherent root :=
    (h.congr (fun w a hw hop _ => hstep w a hw hop)
      (fun w a hw hop => (announced_iff_safe hw hop).symm) hstart).trans
      (Cached.coherent_iff_announced hreadable hcoherent)
  refine ⟨hiff, fun hsafe i virt slot hcov base hbase => ?_⟩
  have hend := hiff.1 hsafe ops.length
  rw [List.take_length] at hend
  have hload := hend i slot base hbase
  rw [Cached.runFrom_store] at hload
  exact (h.invariant hstep hstart).wf.vmmGetPhys_of_leaf hcov hload

/-- One processor maps a page and another maps it again where it is, which
no TLB is the worse for; then the first unmaps it. -/
theorem tlb_coherent_iff_unmapped :
    let root := 0xFFFF800000100000
    let map : Op := .mapPage 0x1000 0x5000 3
      [0xFFFF800000101000, 0xFFFF800000102000, 0xFFFF800000103000]
    let run : List (Fin 2 × Op) := [(0, map), (1, .mapPage 0x1000 0x5000 3 [])]
    (∀ n, (runFrom (Cpus.step root) (Cpus.start (Fin 2) fun _ _ => 0) (run.take n)).Coherent root) ∧
      ¬∀ n, (runFrom (Cpus.step root) (Cpus.start (Fin 2) fun _ _ => 0)
        ((run ++ [(0, Op.unmapPage 0x1000)]).take n)).Coherent root := by
  intro root map run
  have hargs : LeafArgs 0x5000 3 := ⟨by decide, by decide, by decide⟩
  have hnone : ∀ tables : Tables ℕ, Fresh ⟨tables, []⟩ root := fun _ =>
    ⟨fun a ha => absurd ha List.not_mem_nil, fun a ha => absurd ha List.not_mem_nil,
      List.Pairwise.nil⟩
  have hword : ∀ t i : ℕ, (fun _ _ => 0 : Tables ℕ) t i < 2 ^ 64 := fun _ _ => Nat.two_pow_pos 64
  have hframe : ((runFrom (next root) ⟨fun _ _ => 0, fun _ => .empty⟩
      (run.take 1)).space (regionOf 0x1000)).frames (frameOf 0x1000) = some 0x5000 := by
    decide +kernel
  have hcalls : Calls root ⟨fun _ _ => 0, fun _ => .empty⟩
      (run ++ [(0, Op.unmapPage 0x1000)]) := by
    refine ⟨⟨hargs, Fresh.zeroed (by decide) (by decide), fun _ => Region.noConfusion⟩,
      ⟨hargs, hnone _, fun base hhuge => ?_⟩, trivial, trivial⟩
    have hhuge : (runFrom (next root) ⟨fun _ _ => 0, fun _ => .empty⟩
      (run.take 1)).space (regionOf 0x1000) = .huge base := hhuge
    rw [hhuge] at hframe
    cases hframe
  have hframe' : ((runFrom (next root) ⟨fun _ _ => 0, fun _ => .empty⟩
      run).space (regionOf 0x1000)).frames (frameOf 0x1000) = some 0x5000 := by
    decide +kernel
  have hsafe : Allowed (next root) (Safe root) ⟨fun _ _ => 0, fun _ => .empty⟩ run := by
    refine ⟨fun _ => Or.inr nofun, fun _ => Or.inr fun base hbase => ?_, trivial⟩
    have hbase := hframe.symm.trans hbase
    exact (Option.some.inj hbase).symm
  refine ⟨(tlb_coherent_iff hword (fun _ => rfl) (Allowed.append.1 hcalls).1).1.1 hsafe, fun hall => ?_⟩
  obtain ⟨-, -, hunmap, -⟩ := (tlb_coherent_iff hword (fun _ => rfl) hcalls).1.2 hall
  obtain halone | ⟨hnone, -⟩ := hunmap
  · exact absurd (halone 1) (by decide)
  · have hgone := hframe'.symm.trans hnone
    cases hgone

end Vmm

end Kos
