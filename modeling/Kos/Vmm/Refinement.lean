import Kos.Common.Run
import Kos.Vmm.Hierarchy
/-!
# Vmm — the page tables refine the address space

Every run of `vmm_map_page`, `vmm_map_huge_page` and `vmm_unmap_page`
from a zeroed PML4 keeps the tables a tree that says of every region
what the calls so far mean, so `vmm_get_phys` is the translation of the
abstract address space. A call that fails part of the way leaves empty
tables behind, and these say nothing.

The page allocator is the caller's: `Fresh` is what the code relies on,
pages that are not already tables of this hierarchy.
-/

namespace Kos

namespace Vmm

open Radix

variable {tables : Tables ℕ} {s : Mm} {root : ℕ} {p : List ℕ} {t i virt phys flags : ℕ}

/-! ## The indices of an address -/

theorem pml4Index_eq (virt : ℕ) : pml4Index virt = regionOf virt / 2 ^ 18 % 512 := by
  rw [pml4Index, Nat.and_two_pow_sub_one_eq_mod _ 9, Nat.shiftRight_eq_div_pow]
  simp only [regionOf, hugePageSize]
  omega

theorem pdptIndex_eq (virt : ℕ) : pdptIndex virt = regionOf virt / 512 % 512 := by
  rw [pdptIndex, Nat.and_two_pow_sub_one_eq_mod _ 9, Nat.shiftRight_eq_div_pow]
  simp only [regionOf, hugePageSize]
  omega

theorem pdIndex_eq (virt : ℕ) : pdIndex virt = regionOf virt % 512 := by
  rw [pdIndex, Nat.and_two_pow_sub_one_eq_mod _ 9, Nat.shiftRight_eq_div_pow]
  simp only [regionOf, hugePageSize]
  omega

theorem ptIndex_eq (virt : ℕ) : ptIndex virt = frameOf virt := by
  rw [ptIndex, Nat.and_two_pow_sub_one_eq_mod _ 9, Nat.shiftRight_eq_div_pow]
  rfl

theorem dirPath_regionOf (virt : ℕ) : dirPath (regionOf virt) = [pml4Index virt, pdptIndex virt] := by
  rw [dirPath, pml4Index_eq, pdptIndex_eq]

theorem regionOf_lt (virt : ℕ) : regionOf virt < 2 ^ 27 := Nat.mod_lt _ (by decide)

/-! ## Reading -/

/-- Above the directories a present entry is a link. -/
theorem Wf.link_upper (h : Wf tables root) (hp : p.length ≤ 1)
    (ht : walk link tables root p = some t) :
    link (tables t i) = if !isPresent (tables t i) then none else some (tableOf (tables t i)) := by
  cases hpres : isPresent (tables t i) with
  | false => exact link_of_not_present hpres
  | true => exact link_of_present hpres (h.upper p t hp ht i hpres)

/-- The walk to the directory of an address, as the code takes it. -/
theorem Wf.walk_dir (h : Wf tables root) (virt : ℕ) :
    walk link tables root (dirPath (regionOf virt)) =
      if !isPresent (tables root (pml4Index virt)) then none
      else
        let pdpt := tableOf (tables root (pml4Index virt))
        if !isPresent (tables pdpt (pdptIndex virt)) then none
        else some (tableOf (tables pdpt (pdptIndex virt))) := by
  rw [dirPath_regionOf, walk, h.link_upper (p := []) (Nat.zero_le 1) rfl]
  cases hpres : isPresent (tables root (pml4Index virt)) with
  | false => rfl
  | true =>
    have hpdpt : walk link tables root [pml4Index virt] =
        some (tableOf (tables root (pml4Index virt))) := by
      rw [walk, h.link_upper (p := []) (Nat.zero_le 1) rfl, hpres]
      rfl
    simp only [Bool.not_true, Bool.false_eq_true, if_false, Option.bind_some]
    rw [walk, h.link_upper (p := [pml4Index virt]) (Nat.le_refl 1) hpdpt]
    cases isPresent (tables (tableOf (tables root (pml4Index virt))) (pdptIndex virt)) <;> rfl

/-- **`vmm_get_phys` translates through the region the tables describe.** -/
theorem Wf.vmmGetPhys_eq (h : Wf tables root) (virt : ℕ) :
    vmmGetPhys tables root virt = (absRegion tables root (regionOf virt)).translate virt := by
  rw [absRegion, h.walk_dir, vmmGetPhys, ← pdIndex_eq]
  split
  · rfl
  · simp only
    split
    · rfl
    · simp only
      generalize tableOf (tables (tableOf (tables root (pml4Index virt))) (pdptIndex virt)) = pd
      have hword := h.word pd (pdIndex virt)
      rw [entryRegion]
      split
      · rfl
      · split
        · -- a huge page: the offset has 21 bits
          have hoff : virt &&& (hugePageSize - 1) = virt % 2 ^ 21 :=
            Nat.and_two_pow_sub_one_eq_mod virt 21
          rw [hoff, hugeMask, land_highMask hword (by decide),
            two_pow_mul_lor (Nat.mod_lt _ (Nat.two_pow_pos 21))]
          rfl
        · have hoff : virt &&& (pageSize - 1) = virt % 2 ^ 12 :=
            Nat.and_two_pow_sub_one_eq_mod virt 12
          simp only [Region.translate, ← ptIndex_eq]
          cases hpres : isPresent (tables (tableOf (tables pd (pdIndex virt))) (ptIndex virt)) with
          | false => rfl
          | true =>
            simp only [Bool.not_true, Bool.false_eq_true, if_false, if_true]
            rw [hoff, pageMask, land_highMask (h.word _ _) (by decide),
              two_pow_mul_lor (Nat.mod_lt _ (Nat.two_pow_pos 12))]
            rfl

/-! ## Opening a table -/

/-- **What the page allocator must answer**: pages that are no table of
this hierarchy, each at most once. -/
structure Fresh (s : Mm) (root : ℕ) : Prop where
  page : ∀ a ∈ s.pmm, a ≠ 0 → PageAddr a
  unused : ∀ a ∈ s.pmm, a ≠ 0 → ¬ Under link s.tables root 3 a
  once : s.pmm.Pairwise fun a b => a ≠ 0 → a ≠ b

theorem Fresh.tail {a : ℕ} {rest : List ℕ} (h : Fresh ⟨tables, a :: rest⟩ root) :
    Fresh ⟨tables, rest⟩ root :=
  ⟨fun b hb => h.page b (List.mem_cons_of_mem a hb),
    fun b hb => h.unused b (List.mem_cons_of_mem a hb), (List.pairwise_cons.mp h.once).2⟩

/-- A page that was linked is not answered again. -/
theorem Fresh.linkNew {new : ℕ} {rest : List ℕ} (h : Wf tables root)
    (hf : Fresh ⟨tables, new :: rest⟩ root) (hn : new ≠ 0) (hp : p.length ≤ 2)
    (ht : walk link tables root p = some t) (hold : isPresent (tables t i) = false) :
    Fresh ⟨Radix.linkNew tables t i (linkEntry new) new 0, rest⟩ root := by
  have hnew := hf.unused new (List.mem_cons_self ..) hn
  have ha := hf.page new (List.mem_cons_self ..) hn
  refine ⟨hf.tail.page, fun a hmem hne => ?_, hf.tail.once⟩
  rintro ⟨q, hq, hw⟩
  rw [h.walk_link ht hold ha hnew hp hq] at hw
  split at hw
  · cases hw
    exact (List.pairwise_cons.mp hf.once).1 _ hmem hn rfl
  · exact hf.tail.unused a hmem hne ⟨q, hq, hw⟩

/-- What `get_or_create_table` does: it follows the entry, or has no page
for it, or links a new one. -/
theorem getOrCreateTable_cases (s : Mm) (t i : ℕ) :
    let r := getOrCreateTable s t i (ptPresent ||| ptWritable)
    (isPresent (s.tables t i) = true ∧ r = (tableOf (s.tables t i), s)) ∨
      (isPresent (s.tables t i) = false ∧ r = (0, ⟨s.tables, s.pmm.tail⟩)) ∨
      ∃ new rest, isPresent (s.tables t i) = false ∧ new ≠ 0 ∧ s.pmm = new :: rest ∧
        r = (new, ⟨Radix.linkNew s.tables t i (linkEntry new) new 0, rest⟩) := by
  obtain ⟨tables, pmm⟩ := s
  simp only [getOrCreateTable]
  cases hpres : isPresent (tables t i) with
  | true => exact Or.inl ⟨rfl, rfl⟩
  | false =>
    refine Or.inr ?_
    cases pmm with
    | nil => exact Or.inl ⟨rfl, rfl⟩
    | cons new rest =>
      rcases Nat.eq_zero_or_pos new with rfl | hn
      · exact Or.inl ⟨rfl, rfl⟩
      · refine Or.inr ⟨new, rest, rfl, hn.ne', rfl, ?_⟩
        simp only [Bool.false_eq_true, if_false]
        exact if_neg hn.ne'

/-- The tables of `s'` are those of a hierarchy with the same regions. -/
structure Kept (root : ℕ) (s s' : Mm) : Prop where
  wf : Wf s'.tables root
  fresh : Fresh s' root
  regions : ∀ r < 2 ^ 27, absRegion s'.tables root r = absRegion s.tables root r

/-- Running out of pages changes nothing. -/
theorem Kept.exhausted (h : Wf s.tables root) (hf : Fresh s root) :
    Kept root s ⟨s.tables, s.pmm.tail⟩ := by
  obtain ⟨tables, pmm⟩ := s
  refine ⟨h, ?_, fun _ _ => rfl⟩
  cases pmm with
  | nil => exact hf
  | cons a rest => exact hf.tail

/-- **Opening an upper table changes no region.** -/
theorem getOrCreateTable_upper (h : Wf s.tables root) (hf : Fresh s root) (hp : p.length ≤ 1)
    (ht : walk link s.tables root p = some t) :
    let r := getOrCreateTable s t i (ptPresent ||| ptWritable)
    Kept root s r.2 ∧ (r.1 ≠ 0 → walk link r.2.tables root (p ++ [i]) = some r.1) := by
  intro r
  obtain ⟨hpres, hr⟩ | ⟨-, hr⟩ | ⟨new, rest, hold, hn, hpmm, hr⟩ := getOrCreateTable_cases s t i
  · rw [show r = _ from hr]
    refine ⟨⟨h, hf, fun _ _ => rfl⟩, fun _ => ?_⟩
    rw [walk_snoc, ht, Option.bind_some, h.link_upper hp ht, hpres]
    rfl
  · rw [show r = _ from hr]
    exact ⟨Kept.exhausted h hf, fun hc => absurd rfl hc⟩
  · obtain ⟨tables, pmm⟩ := s
    obtain rfl : pmm = new :: rest := hpmm
    have hnew := hf.unused new (List.mem_cons_self ..) hn
    have ha := hf.page new (List.mem_cons_self ..) hn
    rw [show r = _ from hr]
    refine ⟨⟨h.linkNew ht hold ha hnew (by omega), hf.linkNew h hn (by omega) ht hold,
      fun k _ => h.absRegion_link_upper ht hold ha hnew hp k⟩, fun _ => ?_⟩
    have hlen : (p ++ [i]).length ≤ 3 := by
      rw [List.length_append, List.length_singleton]
      omega
    rw [h.walk_link ht hold ha hnew (by omega) hlen, if_pos rfl]

/-- A region as a table; the frames of a region without any are none. -/
def Region.opened (r : Region) : Region := .table r.frames

/-- **Opening the page table of a region** that is no huge page makes it a
table with the same frames. -/
theorem getOrCreateTable_table {r₀ : ℕ} (h : Wf s.tables root) (hf : Fresh s root)
    (hr₀ : r₀ < 2 ^ 27) (hnh : ∀ base, absRegion s.tables root r₀ ≠ .huge base)
    (ht : walk link s.tables root (dirPath r₀) = some t) :
    let r := getOrCreateTable s t (r₀ % 512) (ptPresent ||| ptWritable)
    Wf r.2.tables root ∧
      (r.1 = 0 → ∀ k < 2 ^ 27, absRegion r.2.tables root k = absRegion s.tables root k) ∧
      (r.1 ≠ 0 → walk link r.2.tables root (dirPath r₀ ++ [r₀ % 512]) = some r.1 ∧
        ∀ k < 2 ^ 27, absRegion r.2.tables root k =
          if k = r₀ then (absRegion s.tables root r₀).opened else absRegion s.tables root k) := by
  intro r
  have hregion : absRegion s.tables root r₀ = entryRegion s.tables (s.tables t (r₀ % 512)) := by
    rw [absRegion, ht]
  obtain ⟨hpres, hr⟩ | ⟨-, hr⟩ | ⟨new, rest, hold, hn, hpmm, hr⟩ :=
    getOrCreateTable_cases s t (r₀ % 512)
  · rw [show r = _ from hr]
    have hhuge : isHuge (s.tables t (r₀ % 512)) = false := by
      by_contra hc
      rw [Bool.not_eq_false] at hc
      refine hnh (roundTo hugePageSize (s.tables t (r₀ % 512))) ?_
      simp [hregion, entryRegion, hpres, hc]
    refine ⟨h, fun _ _ _ => rfl, fun _ => ⟨?_, fun k _ => ?_⟩⟩
    · rw [walk_snoc, ht, Option.bind_some, link_of_present hpres hhuge]
    · split
      · rename_i hk
        rw [hk, hregion]
        simp [entryRegion, hpres, hhuge, Region.opened, Region.frames]
      · rfl
  · rw [show r = _ from hr]
    exact ⟨h, fun _ _ _ => rfl, fun hc => absurd rfl hc⟩
  · obtain ⟨tables, pmm⟩ := s
    obtain rfl : pmm = new :: rest := hpmm
    have hnew := hf.unused new (List.mem_cons_self ..) hn
    have ha := hf.page new (List.mem_cons_self ..) hn
    have hlen : (dirPath r₀).length ≤ 2 := Nat.le_refl 2
    rw [show r = _ from hr]
    refine ⟨h.linkNew ht hold ha hnew hlen, fun hc => absurd hc hn, fun _ => ⟨?_, fun k hk => ?_⟩⟩
    · rw [h.walk_link (q := dirPath r₀ ++ [r₀ % 512]) ht hold ha hnew hlen (Nat.le_refl 3),
        if_pos rfl]
    · rw [h.absRegion_link_table ht hold ha hnew rfl rfl hr₀ hk, hregion]
      simp [entryRegion, hold, Region.opened, Region.frames]

/-! ## The calls -/

/-- Clearing an entry before it is written leaves no trace. -/
theorem put_cleared (s : Mm) (t i e : ℕ) :
    ((if isPresent (s.tables t i) then s.put t i 0 else s).put t i e).tables =
      set s.tables t i e := by
  split
  · exact set_set s.tables t i 0 e
  · rfl

/-- The opening of the two upper tables, which both mappings begin with. -/
theorem open_directory (h : Wf s.tables root) (hf : Fresh s root) (virt : ℕ) :
    let r := getOrCreateTable s root (pml4Index virt) (ptPresent ||| ptWritable)
    let r' := getOrCreateTable r.2 r.1 (pdptIndex virt) (ptPresent ||| ptWritable)
    Kept root s r.2 ∧ (r.1 ≠ 0 → Kept root s r'.2 ∧
      (r'.1 ≠ 0 → walk link r'.2.tables root (dirPath (regionOf virt)) = some r'.1)) := by
  intro r r'
  obtain ⟨hkept, hwalk⟩ := getOrCreateTable_upper (p := []) h hf (Nat.zero_le 1) rfl
  refine ⟨hkept, fun hne => ?_⟩
  obtain ⟨hkept', hwalk'⟩ := getOrCreateTable_upper (p := [pml4Index virt]) hkept.wf hkept.fresh
    (Nat.le_refl 1) (hwalk hne)
  refine ⟨⟨hkept'.wf, hkept'.fresh, fun k hk => ?_⟩, fun hne' => ?_⟩
  · rw [hkept'.regions k hk, hkept.regions k hk]
  · rw [dirPath_regionOf]
    exact hwalk' hne'

/-- The opening of the page table, where the region is no huge page. -/
theorem Kept.open_table {s' : Mm} {t : ℕ} (hkept : Kept root s s')
    (hnh : ∀ base, absRegion s.tables root (regionOf virt) ≠ .huge base)
    (ht : walk link s'.tables root (dirPath (regionOf virt)) = some t) :
    let r := getOrCreateTable s' t (pdIndex virt) (ptPresent ||| ptWritable)
    Wf r.2.tables root ∧
      (r.1 = 0 → ∀ k < 2 ^ 27, absRegion r.2.tables root k = absRegion s.tables root k) ∧
      (r.1 ≠ 0 → walk link r.2.tables root (dirPath (regionOf virt) ++ [pdIndex virt]) = some r.1 ∧
        ∀ k < 2 ^ 27, absRegion r.2.tables root k =
          if k = regionOf virt then (absRegion s.tables root (regionOf virt)).opened
          else absRegion s.tables root k) := by
  have hr := regionOf_lt virt
  -- opening the upper tables made no huge page
  have hnh' : ∀ base, absRegion s'.tables root (regionOf virt) ≠ .huge base := by
    rw [hkept.regions _ hr]
    exact hnh
  obtain ⟨hwf, hfail, hok⟩ := getOrCreateTable_table hkept.wf hkept.fresh hr hnh' ht
  rw [← pdIndex_eq, hkept.regions _ hr] at *
  refine ⟨hwf, fun hz k hk => ?_, fun hz => ⟨(hok hz).1, fun k hk => ?_⟩⟩
  · rw [hfail hz k hk, hkept.regions k hk]
  · rw [(hok hz).2 k hk, hkept.regions k hk]

/-- **What a call does to the tables**: they stay a tree, and their
regions are those of the abstract step. -/
structure Refines (root : ℕ) (tables : Tables ℕ) (op : Op) (r : Bool × Mm) : Prop where
  wf : Wf r.2.tables root
  regions : ∀ k < 2 ^ 27,
    absRegion r.2.tables root k = Space.step (absRegion tables root) op r.1 k

/-- What an entry of a page table maps to. -/
def leafFrame (e : ℕ) : Option ℕ := if isPresent e then some (roundTo pageSize e) else none

/-- **`vmm_map_page` writes one leaf**, whatever the flags are. -/
theorem vmmMapPage_regions (h : Wf s.tables root) (hf : Fresh s root)
    (hlt : (phys &&& pageMask) ||| flags < 2 ^ 64)
    (hnh : ∀ base, absRegion s.tables root (regionOf virt) ≠ .huge base) :
    Wf (vmmMapPage s root virt phys flags).2.tables root ∧
      ∀ k < 2 ^ 27, absRegion (vmmMapPage s root virt phys flags).2.tables root k =
        if (vmmMapPage s root virt phys flags).1 = true ∧ k = regionOf virt then
          .table (Function.update (absRegion s.tables root (regionOf virt)).frames (frameOf virt)
            (leafFrame ((phys &&& pageMask) ||| flags)))
        else absRegion s.tables root k := by
  obtain ⟨hkept, hdir⟩ := open_directory h hf virt
  unfold vmmMapPage
  simp only
  generalize getOrCreateTable s root (pml4Index virt) (ptPresent ||| ptWritable) = r at *
  split
  · exact ⟨hkept.wf, fun k hk => by simpa using hkept.regions k hk⟩
  · rename_i hne
    obtain ⟨hkept', hwalk⟩ := hdir hne
    generalize getOrCreateTable r.2 r.1 (pdptIndex virt) (ptPresent ||| ptWritable) = r' at *
    split
    · exact ⟨hkept'.wf, fun k hk => by simpa using hkept'.regions k hk⟩
    · rename_i hne'
      obtain ⟨hwf, hfail, hok⟩ := hkept'.open_table hnh (hwalk hne')
      generalize getOrCreateTable r'.2 r'.1 (pdIndex virt) (ptPresent ||| ptWritable) = r'' at *
      split
      · rename_i hz
        exact ⟨hwf, fun k hk => by simpa using hfail hz k hk⟩
      · rename_i hz
        obtain ⟨hpt, habs⟩ := hok hz
        refine ⟨?_, fun k hk => ?_⟩
        · rw [put_cleared]
          exact hwf.set_leaf hpt hlt rfl
        · have hr := regionOf_lt virt
          rw [put_cleared, hwf.absRegion_set_leaf hpt (by rw [pdIndex_eq]) hr hk, habs _ hr, habs k hk,
            ptIndex_eq]
          simp only [true_and, if_true, Region.opened, Region.frames]
          split
          · rfl
          · rfl

/-- **`vmm_map_page` sets one frame.** -/
theorem vmmMapPage_refines (h : Wf s.tables root) (hf : Fresh s root) (hp : phys < 2 ^ 52)
    (hflags : flags < 2 ^ 12) (hpres : flags.testBit 0 = true)
    (hnh : ∀ base, absRegion s.tables root (regionOf virt) ≠ .huge base) :
    Refines root s.tables (.mapPage virt phys flags s.pmm) (vmmMapPage s root virt phys flags) := by
  obtain ⟨hpage, hround, hlt⟩ := pageEntry_spec hp hflags hpres
  obtain ⟨hwf, hregions⟩ := vmmMapPage_regions h hf hlt hnh
  refine ⟨hwf, fun k hk => ?_⟩
  rw [hregions k hk, leafFrame, if_pos hpage, hround]
  cases (vmmMapPage s root virt phys flags).1 with
  | false => simp [Space.step]
  | true =>
    simp only [Space.step, Bool.not_true, Bool.false_eq_true, if_false, true_and,
      Function.update_apply, Region.mapPage]

/-- What an entry of a directory that is a leaf maps to. -/
def leafRegion (e : ℕ) : Region := if isPresent e then .huge (roundTo hugePageSize e) else .empty

/-- The entry of a huge page is a leaf, whatever the flags are. -/
theorem link_hugeEntry (phys flags : ℕ) : link ((phys &&& hugeMask) ||| flags ||| ptHuge) = none := by
  refine link_of_huge ?_
  rw [isHuge_eq, Nat.testBit_or, show ptHuge.testBit 7 = true from rfl, Bool.or_true]

/-- **`vmm_map_huge_page` writes one leaf**, whatever the flags are. -/
theorem vmmMapHugePage_regions (h : Wf s.tables root) (hf : Fresh s root)
    (hlt : (phys &&& hugeMask) ||| flags ||| ptHuge < 2 ^ 64) :
    Wf (vmmMapHugePage s root virt phys flags).2.tables root ∧
      ∀ k < 2 ^ 27, absRegion (vmmMapHugePage s root virt phys flags).2.tables root k =
        if (vmmMapHugePage s root virt phys flags).1 = true ∧ k = regionOf virt then
          leafRegion ((phys &&& hugeMask) ||| flags ||| ptHuge)
        else absRegion s.tables root k := by
  obtain ⟨hkept, hdir⟩ := open_directory h hf virt
  have hlink := link_hugeEntry phys flags
  unfold vmmMapHugePage
  simp only
  generalize getOrCreateTable s root (pml4Index virt) (ptPresent ||| ptWritable) = r at *
  split
  · exact ⟨hkept.wf, fun k hk => by simpa using hkept.regions k hk⟩
  · rename_i hne
    obtain ⟨hkept', hwalk⟩ := hdir hne
    generalize getOrCreateTable r.2 r.1 (pdptIndex virt) (ptPresent ||| ptWritable) = r' at *
    split
    · exact ⟨hkept'.wf, fun k hk => by simpa using hkept'.regions k hk⟩
    · rename_i hne'
      refine ⟨?_, fun k hk => ?_⟩
      · rw [put_cleared]
        exact hkept'.wf.set_dir (hwalk hne') hlt rfl hlink
      · rw [put_cleared, hkept'.wf.absRegion_set_dir (hwalk hne') rfl (pdIndex_eq virt)
          (regionOf_lt virt) hlink hk, hkept'.regions k hk]
        simp only [true_and]
        rfl

/-- **`vmm_map_huge_page` replaces one region.** -/
theorem vmmMapHugePage_refines (h : Wf s.tables root) (hf : Fresh s root) (hp : phys < 2 ^ 52)
    (hflags : flags < 2 ^ 12) (hpres : flags.testBit 0 = true) :
    Refines root s.tables (.mapHugePage virt phys flags s.pmm)
      (vmmMapHugePage s root virt phys flags) := by
  obtain ⟨hpage, -, hround, hlt⟩ := hugeEntry_spec hp hflags hpres
  obtain ⟨hwf, hregions⟩ := vmmMapHugePage_regions h hf hlt
  refine ⟨hwf, fun k hk => ?_⟩
  rw [hregions k hk, leafRegion, if_pos hpage, hround]
  cases (vmmMapHugePage s root virt phys flags).1 with
  | false => simp [Space.step]
  | true =>
    simp only [Space.step, Bool.not_true, Bool.false_eq_true, if_false, true_and,
      Function.update_apply]

/-- **`vmm_unmap_page` removes the leaf that covers the address.** -/
theorem vmmUnmapPage_refines (h : Wf s.tables root) (virt : ℕ) :
    Refines root s.tables (.unmapPage virt) (true, vmmUnmapPage s root virt) := by
  have hr := regionOf_lt virt
  have hdir := h.walk_dir virt
  have hstep : ∀ k, Space.step (absRegion s.tables root) (.unmapPage virt) true k =
      if k = regionOf virt then (absRegion s.tables root (regionOf virt)).unmapPage (frameOf virt)
      else absRegion s.tables root k := fun k => Function.update_apply ..
  -- where there is no leaf the region is empty, and stays so
  have hnone : absRegion s.tables root (regionOf virt) = .empty →
      Refines root s.tables (.unmapPage virt) (true, s) := by
    intro hempty
    refine ⟨h, fun k _ => ?_⟩
    rw [hstep]
    split
    · rename_i hk
      rw [hk, hempty]
      rfl
    · rfl
  unfold vmmUnmapPage
  split at hdir
  · rename_i hc
    rw [if_pos hc]
    exact hnone (by rw [absRegion, hdir])
  · rename_i hc
    rw [if_neg hc]
    simp only at hdir ⊢
    split at hdir
    · rename_i hc'
      rw [if_pos hc']
      exact hnone (by rw [absRegion, hdir])
    · rename_i hc'
      rw [if_neg hc']
      generalize tableOf (s.tables (tableOf (s.tables root (pml4Index virt))) (pdptIndex virt)) = pd
        at hdir ⊢
      have hregion : absRegion s.tables root (regionOf virt) =
          entryRegion s.tables (s.tables pd (pdIndex virt)) := by
        rw [absRegion, hdir, pdIndex_eq]
      split
      · rename_i hpd
        refine hnone ?_
        rw [hregion, entryRegion, if_pos hpd]
      · rename_i hpd
        have hpres : isPresent (s.tables pd (pdIndex virt)) = true := by simpa using hpd
        split
        · -- a huge leaf: the whole region goes
          rename_i hh
          refine ⟨h.set_dir hdir (Nat.two_pow_pos 64) rfl link_zero, fun k hk => ?_⟩
          rw [hstep, hregion, entryRegion, if_neg hpd, if_pos hh]
          exact h.absRegion_set_dir hdir rfl (pdIndex_eq virt) hr link_zero hk
        · -- a table: one entry of it goes
          rename_i hh
          have hpt : walk link s.tables root (dirPath (regionOf virt) ++ [regionOf virt % 512]) =
              some (tableOf (s.tables pd (pdIndex virt))) := by
            rw [walk_snoc, hdir, Option.bind_some, ← pdIndex_eq,
              link_of_present hpres (by simpa using hh)]
          have hwf : Wf (set s.tables (tableOf (s.tables pd (pdIndex virt))) (ptIndex virt) 0) root :=
            h.set_leaf hpt (Nat.two_pow_pos 64) rfl
          refine ⟨hwf, fun k hk => ?_⟩
          have hset := h.absRegion_set_leaf (i := ptIndex virt) (e := 0) hpt rfl hr hk
          rw [hregion, entryRegion, if_neg hpd, if_neg hh, ptIndex_eq] at hset
          rw [hstep, hregion, entryRegion, if_neg hpd, if_neg hh, ptIndex_eq]
          exact hset

/-! ## Runs -/

/-- The tables, and the address space the calls so far mean. -/
structure World where
  tables : Tables ℕ
  space : Space

/-- One call of the code; an unmap cannot fail. -/
def call (tables : Tables ℕ) (root : ℕ) : Op → Bool × Mm
  | .mapPage virt phys flags pmm => vmmMapPage ⟨tables, pmm⟩ root virt phys flags
  | .mapHugePage virt phys flags pmm => vmmMapHugePage ⟨tables, pmm⟩ root virt phys flags
  | .unmapPage virt => (true, vmmUnmapPage ⟨tables, []⟩ root virt)

/-- A call, on both sides: the abstract step follows what the call returned. -/
def World.step (root : ℕ) (w : World) (op : Op) : World :=
  ⟨(call w.tables root op).2.tables, w.space.step op (call w.tables root op).1⟩

/-- A frame and flags that an entry has room for. -/
structure LeafArgs (phys flags : ℕ) : Prop where
  phys_lt : phys < 2 ^ 52
  flags_lt : flags < 2 ^ 12
  present : flags.testBit 0 = true

/-- **The calls a caller may make**: no page is mapped into a huge page. -/
def Permitted (root : ℕ) (w : World) : Op → Prop
  | .mapPage virt phys flags pmm =>
    LeafArgs phys flags ∧ Fresh ⟨w.tables, pmm⟩ root ∧ ∀ base, w.space (regionOf virt) ≠ .huge base
  | .mapHugePage _ phys flags pmm => LeafArgs phys flags ∧ Fresh ⟨w.tables, pmm⟩ root
  | .unmapPage _ => True

/-- **The tables say what the calls mean.** -/
structure World.Inv (root : ℕ) (w : World) : Prop where
  wf : Wf w.tables root
  regions : ∀ k < 2 ^ 27, absRegion w.tables root k = w.space k

/-- An abstract step reads and writes regions by number only. -/
theorem Space.step_congr {a b : Space} (h : ∀ k < 2 ^ 27, a k = b k) (op : Op) (ok : Bool) :
    ∀ k < 2 ^ 27, a.step op ok k = b.step op ok k := by
  intro k hk
  cases ok with
  | false => exact h k hk
  | true =>
    cases op with
    | mapPage virt phys flags pmm =>
      simp only [Space.step, Bool.not_true, Bool.false_eq_true, if_false, Function.update_apply,
        h k hk, h _ (regionOf_lt virt)]
    | mapHugePage virt phys flags pmm =>
      simp only [Space.step, Bool.not_true, Bool.false_eq_true, if_false, Function.update_apply,
        h k hk]
    | unmapPage virt =>
      simp only [Space.step, Bool.not_true, Bool.false_eq_true, if_false, Function.update_apply,
        h k hk, h _ (regionOf_lt virt)]

/-- **One permitted call keeps the correspondence.** -/
theorem World.Inv.step {w : World} {op : Op} (h : w.Inv root) (hop : Permitted root w op) :
    (w.step root op).Inv root := by
  have hcall : Refines root w.tables op (call w.tables root op) := by
    cases op with
    | mapPage virt phys flags pmm =>
      obtain ⟨⟨hphys, hflags, hpres⟩, hfresh, hnh⟩ := hop
      refine vmmMapPage_refines (s := ⟨w.tables, pmm⟩) h.wf hfresh hphys hflags hpres ?_
      intro base
      rw [h.regions _ (regionOf_lt virt)]
      exact hnh base
    | mapHugePage virt phys flags pmm =>
      obtain ⟨⟨hphys, hflags, hpres⟩, hfresh⟩ := hop
      exact vmmMapHugePage_refines (s := ⟨w.tables, pmm⟩) h.wf hfresh hphys hflags hpres
    | unmapPage virt => exact vmmUnmapPage_refines (s := ⟨w.tables, []⟩) h.wf virt
  refine ⟨hcall.wf, fun k hk => ?_⟩
  exact (hcall.regions k hk).trans (Space.step_congr h.regions op _ k hk)

/-- Zeroed tables describe the empty address space. -/
theorem World.Inv.zeroed (hword : ∀ t i, tables t i < 2 ^ 64) (hzero : ∀ i, tables root i = 0) :
    World.Inv root ⟨tables, fun _ => .empty⟩ := by
  have hlink : ∀ i, link (tables root i) = none := fun i => by rw [hzero, link_zero]
  refine ⟨⟨hword, isTree_empty hlink, ?_, ?_⟩, fun k _ => ?_⟩
  · intro p t _ ht i hpres
    cases p with
    | nil =>
      cases ht
      have hpres : isPresent (tables root i) = true := hpres
      rw [hzero] at hpres
      exact absurd hpres (by decide)
    | cons j p =>
      rw [walk, hlink] at ht
      cases ht
  · intro p t hp _ ht
    cases p with
    | nil => exact absurd rfl hp
    | cons j p =>
      rw [walk, hlink] at ht
      cases ht
  · rw [absRegion, dirPath, walk, hlink]
    rfl

/-- Under a zeroed root there is the root. -/
theorem under_zeroed {d a : ℕ} (hzero : ∀ i, tables root i = 0)
    (h : Under link tables root d a) : a = root := by
  obtain ⟨p, -, hp⟩ := h
  cases p with
  | nil => exact (Option.some.inj hp).symm
  | cons i p =>
    rw [walk, hzero, link_zero] at hp
    cases hp

/-- Pages for an empty hierarchy, other than its root. -/
theorem Fresh.zeroed {pmm : List ℕ}
    (hpages : ∀ a ∈ pmm, a ≠ 0 ∧ a < 2 ^ 64 ∧ a % pageSize = 0 ∧ a ≠ root)
    (honce : pmm.Pairwise fun a b => a ≠ 0 → a ≠ b) : Fresh ⟨fun _ _ => 0, pmm⟩ root where
  page a ha _ := ⟨(hpages a ha).1, (hpages a ha).2.1, (hpages a ha).2.2.1⟩
  unused a ha _ hu := (hpages a ha).2.2.2 (under_zeroed (fun _ => rfl) hu)
  once := honce

end Vmm

end Kos
