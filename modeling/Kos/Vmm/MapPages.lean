import Kos.Vmm.Leaves
/-!
# Vmm — `vmm_map_pages` and what a failure leaves

The call takes a page and maps it, one address after the other. Where
there is no page it unmaps what it has mapped; where a table is missing
it returns at once. On neither way does it give a page back.
-/

namespace Kos

namespace Vmm

open Radix

variable {s : Mm} {root v count flags i : ℕ} {taken : List ℕ}

/-- What a call did: its result, the tables, the data pages it took from
the allocator and the pages it gave back. -/
structure MapPages where
  ok : Bool
  mm : Mm
  taken : List ℕ
  released : List ℕ

/-- `v + i * PAGE_SIZE`. -/
def nthPage (v i : ℕ) : ℕ := add64 v (mul64 i pageSize)

/-- The rollback: the first `n` pages are unmapped. -/
def rollback (s : Mm) (pml4 v n : ℕ) : Mm :=
  (List.range n).foldl (fun s j => vmmUnmapPage s pml4 (nthPage v j)) s

theorem rollback_succ (s : Mm) (pml4 v n : ℕ) :
    rollback s pml4 v (n + 1) = vmmUnmapPage (rollback s pml4 v n) pml4 (nthPage v n) := by
  rw [rollback, List.range_succ, List.foldl_append]
  rfl

/-- The loop of `vmm_map_pages` from page `i` on, with the pages still to
map. No path has a call of `pmm_free_page`. -/
def mapPagesFrom (pml4 v flags : ℕ) : ℕ → ℕ → Mm → List ℕ → MapPages
  | 0, _, s, taken => ⟨true, s, taken, []⟩
  | n + 1, i, s, taken =>
    let (page, s) := pmmAllocPage s
    -- the branch that rolls back; the pages already mapped are unmapped, not freed
    if page = 0 then ⟨false, rollback s pml4 v i, taken, []⟩
    else
      let (ok, s) := vmmMapPage s pml4 (nthPage v i) (virtToPhys page) flags
      -- a table is missing: the branch without a rollback
      if !ok then ⟨false, s, page :: taken, []⟩
      else mapPagesFrom pml4 v flags n (i + 1) s (page :: taken)

/-- `vmm_map_pages`. -/
def vmmMapPages (s : Mm) (pml4 virt count flags : ℕ) : MapPages :=
  mapPagesFrom pml4 virt flags count 0 s []

/-- **A failed call is undone**: the addresses outside the recursive slot
are translated as before, and the data pages are given back. -/
structure Undone (s : Mm) (root : ℕ) (r : MapPages) : Prop where
  translations : ∀ a, pml4Index a ≠ recursiveIndex →
    vmmGetPhys r.mm.tables root a = vmmGetPhys s.tables root a
  pages : ∀ page ∈ r.taken, page ∈ r.released

theorem pmmAllocPage_tables (s : Mm) : (pmmAllocPage s).2.tables = s.tables := by
  rw [pmmAllocPage]
  split
  · rfl
  · rfl

/-- Nothing is given back. -/
theorem mapPagesFrom_released (n : ℕ) : (mapPagesFrom root v flags n i s taken).released = [] := by
  induction n generalizing i s taken with
  | zero => rfl
  | succ n ih =>
    simp only [mapPagesFrom]
    split_ifs
    · rfl
    · rfl
    · exact ih

/-- What was taken stays taken. -/
theorem mem_mapPagesFrom_taken {page : ℕ} (n : ℕ) (h : page ∈ taken) :
    page ∈ (mapPagesFrom root v flags n i s taken).taken := by
  induction n generalizing i s taken with
  | zero => exact h
  | succ n ih =>
    simp only [mapPagesFrom]
    split_ifs
    · exact h
    · exact List.mem_cons_of_mem _ h
    · exact ih (List.mem_cons_of_mem _ h)

/-- **A failed call is undone exactly where it got no page at all.** -/
theorem vmmMapPages_undone_iff (hfail : (vmmMapPages s root v count flags).ok = false) :
    Undone s root (vmmMapPages s root v count flags) ↔ (pmmAllocPage s).1 = 0 := by
  cases count with
  | zero => cases hfail
  | succ n =>
    constructor
    · intro hundone
      by_contra hpage
      -- a page that was taken is never given back, whatever comes after
      have htaken : (pmmAllocPage s).1 ∈ (vmmMapPages s root v (n + 1) flags).taken := by
        simp only [vmmMapPages, mapPagesFrom, if_neg hpage]
        split_ifs
        · exact List.mem_cons_self
        · exact mem_mapPagesFrom_taken n List.mem_cons_self
      have hback := hundone.pages _ htaken
      rw [vmmMapPages, mapPagesFrom_released] at hback
      cases hback
    · intro hpage
      have hres : vmmMapPages s root v (n + 1) flags = ⟨false, (pmmAllocPage s).2, [], []⟩ := by
        simp only [vmmMapPages, mapPagesFrom, if_pos hpage]
        rfl
      rw [hres]
      exact ⟨fun a _ => by rw [pmmAllocPage_tables], fun page hmem => absurd hmem List.not_mem_nil⟩

/-- The allocator has no page, and nothing is to be undone. -/
theorem vmmMapPages_no_page_undone :
    (vmmMapPages ⟨fun _ _ => 0, []⟩ 0xFFFF800000100000 0x1000 2 0x3).ok = false ∧
      Undone ⟨fun _ _ => 0, []⟩ 0xFFFF800000100000
        (vmmMapPages ⟨fun _ _ => 0, []⟩ 0xFFFF800000100000 0x1000 2 0x3) :=
  ⟨rfl, (vmmMapPages_undone_iff rfl).2 rfl⟩

/-- A space with the page `0x1000` mapped to `0x5000`, and an allocator with
one page left. -/
def lastPage : Mm :=
  { (vmmMapPage tablePages 0xFFFF800000100000 0x1000 0x5000 0x3).2 with pmm := [0xFFFF800000104000] }

/-- **A rollback takes away what was mapped before.** The first page goes to
`0x1000`, there is none for `0x2000`, and `0x1000` is unmapped. The page
is not given back. -/
theorem vmmMapPages_rollback_unmaps :
    let r := vmmMapPages lastPage 0xFFFF800000100000 0x1000 2 0x3
    r.ok = false ∧ vmmGetPhys lastPage.tables 0xFFFF800000100000 0x1000 = 0x5000 ∧
      vmmGetPhys r.mm.tables 0xFFFF800000100000 0x1000 = 0 ∧
      r.taken = [0xFFFF800000104000] ∧ r.released = [] ∧ ¬ Undone lastPage 0xFFFF800000100000 r := by
  intro r
  have hok : r.ok = false := by decide +kernel
  refine ⟨hok, by decide +kernel, by decide +kernel, by decide +kernel, by decide +kernel, ?_⟩
  intro hundone
  have hback := hundone.pages 0xFFFF800000104000 (by decide +kernel)
  exact absurd hback (by decide +kernel)

/-- **A missing table leaves pages mapped.** The pages are on the two sides
of a region's end; there is a page for each, and no table for the
second. -/
theorem vmmMapPages_no_table_stays :
    let s : Mm := ⟨fun _ _ => 0, [0xFFFF800000104000, 0xFFFF800000101000, 0xFFFF800000102000,
      0xFFFF800000103000, 0xFFFF800000105000]⟩
    let r := vmmMapPages s 0xFFFF800000100000 0x1FF000 2 0x3
    r.ok = false ∧ vmmGetPhys s.tables 0xFFFF800000100000 0x1FF000 = 0 ∧
      vmmGetPhys r.mm.tables 0xFFFF800000100000 0x1FF000 = 0x104000 := by
  decide +kernel

/-! ## What a failure leaves -/

/-- **Pages that can be mapped one after the other**: the tables are in
order, the allocator answers with fresh pages, and none of the pages is
in a huge one. -/
structure Mappable (root v count : ℕ) (s : Mm) : Prop where
  wf : Wf s.tables root
  fresh : Fresh s root
  tables : ∀ j < count, ∀ base, absRegion s.tables root (regionOf (nthPage v j)) ≠ .huge base

/-- The address is in one of the first `n` pages. -/
def Covers (v n a : ℕ) : Prop := ∃ j < n, pageOf a = pageOf (nthPage v j)

theorem covers_succ {n a : ℕ} :
    Covers v (n + 1) a ↔ Covers v n a ∨ pageOf a = pageOf (nthPage v n) := by
  constructor
  · rintro ⟨j, hj, ha⟩
    rcases Nat.lt_succ_iff_lt_or_eq.1 hj with hj | rfl
    · exact Or.inl ⟨j, hj, ha⟩
    · exact Or.inr ha
  · rintro (⟨j, hj, ha⟩ | ha)
    · exact ⟨j, by omega, ha⟩
    · exact ⟨n, by omega, ha⟩

/-- **After `vmm_unmap_page`** of a page that is in no huge one, this page
is unmapped and the others are what they were. -/
theorem vmmUnmapPage_page {virt : ℕ} (h : Wf s.tables root)
    (hnh : ∀ base, absRegion s.tables root (regionOf virt) ≠ .huge base) (a : ℕ) :
    vmmGetPhys (vmmUnmapPage s root virt).tables root a =
      if pageOf a = pageOf virt then 0 else vmmGetPhys s.tables root a := by
  obtain ⟨hwf, hregions⟩ := vmmUnmapPage_refines h virt
  rw [hwf.vmmGetPhys_eq, h.vmmGetPhys_eq, hregions _ (regionOf_lt a)]
  simp only [Space.step, Bool.not_true, Bool.false_eq_true, if_false, Function.update_apply]
  -- only the region of the page changes, and in it only the one frame
  by_cases hregion : regionOf a = regionOf virt
  · rw [if_pos hregion, hregion]
    cases hr : absRegion s.tables root (regionOf virt) with
    | empty => exact (ite_self 0).symm
    | huge base => exact absurd hr (hnh base)
    | table frames =>
      rw [Region.unmapPage, Region.translate_update]
      by_cases hframe : frameOf a = frameOf virt
      · rw [if_pos hframe, if_pos (pageOf_eq_iff.2 ⟨hregion, hframe⟩)]
        rfl
      · rw [if_neg hframe, if_neg fun hc => hframe (pageOf_eq_iff.1 hc).2]
  · rw [if_neg hregion, if_neg fun hc => hregion (pageOf_eq_iff.1 hc).1]

/-- A page taken from the allocator leaves the tables alone. -/
theorem Mappable.take (h : Mappable root v count s) : Mappable root v count (pmmAllocPage s).2 := by
  obtain ⟨tables, pmm⟩ := s
  cases pmm with
  | nil => exact h
  | cons page rest => exact ⟨h.wf, h.fresh.tail, h.tables⟩

/-- Unmapping makes no huge page. -/
theorem Mappable.unmapPage (h : Mappable root v count s) (virt : ℕ) :
    Mappable root v count (vmmUnmapPage s root virt) := by
  obtain ⟨hwf, hregions⟩ := vmmUnmapPage_refines h.wf virt
  have hstays : Stays root 0 s (vmmUnmapPage s root virt) := vmmUnmapPage_stays h.wf virt
  refine ⟨hwf, hstays.fresh h.fresh, fun j hj base hc => ?_⟩
  rw [hregions _ (regionOf_lt _)] at hc
  simp only [Space.step, Bool.not_true, Bool.false_eq_true, if_false, Function.update_apply] at hc
  split_ifs at hc with hregion
  · rw [← hregion] at hc
    cases hr : absRegion s.tables root (regionOf (nthPage v j)) with
    | empty =>
      rw [hr] at hc
      cases hc
    | huge base' => exact h.tables j hj base' hr
    | table frames =>
      rw [hr] at hc
      cases hc
  · exact h.tables j hj base hc

/-- Nor does mapping a page. -/
theorem Mappable.mapPage {phys : ℕ} (h : Mappable root v count s) (hflags : flags < 2 ^ 64)
    (hi : i < count) :
    Mappable root v count (vmmMapPage s root (nthPage v i) phys flags).2 := by
  have hnh := h.tables i hi
  obtain ⟨hwf, hregions⟩ := vmmMapPage_regions h.wf h.fresh (pageEntry_lt phys hflags) hnh
  refine ⟨hwf, (vmmMapPage_stays h.wf h.fresh hnh).fresh h.fresh, fun j hj base hc => ?_⟩
  rw [hregions _ (regionOf_lt _)] at hc
  split_ifs at hc
  exact h.tables j hj base hc

/-- **The rollback unmaps the pages it is for**, whatever they were. -/
theorem Mappable.rollback {n : ℕ} (h : Mappable root v count s) (hn : n ≤ count) :
    Mappable root v count (Vmm.rollback s root v n) ∧
      (∀ a, Covers v n a → vmmGetPhys (Vmm.rollback s root v n).tables root a = 0) ∧
      ∀ a, ¬ Covers v n a →
        vmmGetPhys (Vmm.rollback s root v n).tables root a = vmmGetPhys s.tables root a := by
  induction n with
  | zero =>
    refine ⟨h, ?_, fun a _ => rfl⟩
    rintro a ⟨j, hj, -⟩
    omega
  | succ n ih =>
    obtain ⟨hm, hcovered, hothers⟩ := ih (by omega)
    have hpage := vmmUnmapPage_page hm.wf (hm.tables n (by omega))
    -- the last page is unmapped, the others are by induction
    rw [rollback_succ]
    refine ⟨hm.unmapPage _, fun a ha => ?_, fun a ha => ?_⟩
    · rw [hpage a]
      rcases covers_succ.1 ha with ha | ha
      · rw [hcovered a ha, ite_self]
      · rw [if_pos ha]
    · rw [covers_succ, not_or] at ha
      rw [hpage a, if_neg ha.2, hothers a ha.1]

/-- An address is translated to one of the pages, as the entry for it
says. -/
def GoesTo (tables : Tables ℕ) (root flags : ℕ) (pages : List ℕ) (a : ℕ) : Prop :=
  ∃ page ∈ pages, vmmGetPhys tables root a =
    (leafFrame ((virtToPhys page &&& pageMask) ||| flags)).elim 0 (· + a % pageSize)

/-- **What a failed call leaves.** There was no page for address `n`: those
before it are unmapped. Or there was no table for it: those before it
stay mapped to the pages the call took. The others are as before. -/
inductive LeftBehind (s : Mm) (root v count flags : ℕ) (r : MapPages) : Prop
  | noPage (n : ℕ) (hn : n < count) (htaken : r.taken.length = n)
      (hcovered : ∀ a, pml4Index a ≠ recursiveIndex → Covers v n a →
        vmmGetPhys r.mm.tables root a = 0)
      (hothers : ∀ a, pml4Index a ≠ recursiveIndex → ¬ Covers v n a →
        vmmGetPhys r.mm.tables root a = vmmGetPhys s.tables root a)
  | noTable (n : ℕ) (hn : n < count) (htaken : r.taken.length = n + 1)
      (hcovered : ∀ a, pml4Index a ≠ recursiveIndex → Covers v n a →
        GoesTo r.mm.tables root flags r.taken a)
      (hothers : ∀ a, pml4Index a ≠ recursiveIndex → ¬ Covers v n a →
        vmmGetPhys r.mm.tables root a = vmmGetPhys s.tables root a)

/-- The loop when it has come to page `i`. -/
structure Progress (s₀ : Mm) (root v count flags i : ℕ) (s : Mm) (taken : List ℕ) : Prop where
  mappable : Mappable root v count s
  length : taken.length = i
  covered : ∀ a, Covers v i a → GoesTo s.tables root flags taken a
  others : ∀ a, ¬ Covers v i a → vmmGetPhys s.tables root a = vmmGetPhys s₀.tables root a

section Progress

variable {s₀ : Mm} (h : Progress s₀ root v count flags i s taken)
include h

/-- Asking for a page changes no translation. -/
theorem Progress.take : Progress s₀ root v count flags i (pmmAllocPage s).2 taken := by
  refine ⟨h.mappable.take, h.length, ?_, ?_⟩
  · rw [pmmAllocPage_tables]
    exact h.covered
  · rw [pmmAllocPage_tables]
    exact h.others

variable {page : ℕ} (hflags : flags < 2 ^ 64) (hi : i < count)
include hflags hi

/-- **One page more.** -/
theorem Progress.mapPage
    (hok : (vmmMapPage s root (nthPage v i) (virtToPhys page) flags).1 = true) :
    Progress s₀ root v count flags (i + 1)
      (vmmMapPage s root (nthPage v i) (virtToPhys page) flags).2 (page :: taken) := by
  have htranslate := vmmMapPage_translate h.mappable.wf h.mappable.fresh
    (pageEntry_lt (virtToPhys page) hflags) (h.mappable.tables i hi)
  -- an address is in the new page, in one of those before, or in none
  refine ⟨h.mappable.mapPage hflags hi, by rw [List.length_cons, h.length], fun a ha => ?_,
    fun a ha => ?_⟩
  · by_cases hpage : pageOf a = pageOf (nthPage v i)
    · exact ⟨page, List.mem_cons_self, by rw [htranslate, if_pos ⟨hok, hpage⟩]⟩
    · obtain ⟨q, hq, hgoes⟩ := h.covered a ((covers_succ.1 ha).resolve_right hpage)
      exact ⟨q, List.mem_cons_of_mem page hq, by rw [htranslate, if_neg fun hc => hpage hc.2, hgoes]⟩
  · rw [covers_succ, not_or] at ha
    rw [htranslate, if_neg fun hc => ha.2 hc.2, h.others a ha.1]

/-- A table that is missing leaves the translations alone. -/
theorem Progress.noTable
    (hok : (vmmMapPage s root (nthPage v i) (virtToPhys page) flags).1 = false) :
    LeftBehind s₀ root v count flags
      ⟨false, (vmmMapPage s root (nthPage v i) (virtToPhys page) flags).2, page :: taken, []⟩ := by
  have hsame : ∀ a, vmmGetPhys (vmmMapPage s root (nthPage v i) (virtToPhys page) flags).2.tables root a =
      vmmGetPhys s.tables root a := by
    intro a
    rw [vmmMapPage_translate h.mappable.wf h.mappable.fresh (pageEntry_lt (virtToPhys page) hflags)
      (h.mappable.tables i hi), if_neg]
    rintro ⟨hc, -⟩
    rw [hok] at hc
    cases hc
  refine .noTable i hi (by rw [List.length_cons, h.length]) (fun a _ ha => ?_) fun a _ ha => ?_
  · obtain ⟨q, hq, hgoes⟩ := h.covered a ha
    exact ⟨q, List.mem_cons_of_mem page hq, (hsame a).trans hgoes⟩
  · exact (hsame a).trans (h.others a ha)

omit hflags in
/-- A page that is missing is where the rollback starts. -/
theorem Progress.noPage :
    LeftBehind s₀ root v count flags ⟨false, Vmm.rollback s root v i, taken, []⟩ := by
  obtain ⟨-, hcovered, hothers⟩ := h.mappable.rollback (le_of_lt hi)
  exact .noPage i hi h.length (fun a _ => hcovered a) fun a _ ha =>
    (hothers a ha).trans (h.others a ha)

end Progress

/-- **What the loop leaves where it fails.** -/
theorem mapPagesFrom_leaves {s₀ : Mm} (hflags : flags < 2 ^ 64) (n : ℕ) (hn : i + n = count)
    (h : Progress s₀ root v count flags i s taken)
    (hfail : (mapPagesFrom root v flags n i s taken).ok = false) :
    Wf (mapPagesFrom root v flags n i s taken).mm.tables root ∧
      LeftBehind s₀ root v count flags (mapPagesFrom root v flags n i s taken) := by
  induction n generalizing i s taken with
  | zero => cases hfail
  | succ n ih =>
    have hi : i < count := by omega
    simp only [mapPagesFrom] at hfail ⊢
    by_cases hpage : (pmmAllocPage s).1 = 0
    -- the three ways out of an iteration: no page, no table, the next page
    · rw [if_pos hpage]
      exact ⟨(h.take.mappable.rollback (le_of_lt hi)).1.wf, h.take.noPage hi⟩
    · rw [if_neg hpage] at hfail ⊢
      cases hok : (vmmMapPage (pmmAllocPage s).2 root (nthPage v i)
          (virtToPhys (pmmAllocPage s).1) flags).1 with
      | false => exact ⟨(h.take.mappable.mapPage hflags hi).wf, h.take.noTable hflags hi hok⟩
      | true =>
        rw [hok] at hfail
        exact ih (by omega) (h.take.mapPage hflags hi hok) hfail

/-! ## Spaces that show their root -/

section Recursive

variable {e : ℕ} (hslots : ∀ j < count, pml4Index (nthPage v j) ≠ recursiveIndex)
include hslots

/-- The rollback neither reads nor writes the recursive entry. -/
theorem Mappable.rollback_put {n : ℕ} (h : Mappable root v count s) (hn : n ≤ count) :
    Vmm.rollback (s.put root recursiveIndex e) root v n =
      (Vmm.rollback s root v n).put root recursiveIndex e := by
  induction n with
  | zero => rfl
  | succ n ih =>
    have hm := (h.rollback (show n ≤ count by omega)).1
    rw [rollback_succ, rollback_succ, ih (by omega), vmmUnmapPage_put hm.wf (hslots n (by omega))]

/-- Nor does the loop. -/
theorem mapPagesFrom_put (hflags : flags < 2 ^ 64) (n : ℕ) (hn : i + n = count)
    (h : Mappable root v count s) (hroot : root ∉ s.pmm) :
    mapPagesFrom root v flags n i (s.put root recursiveIndex e) taken =
      { mapPagesFrom root v flags n i s taken with
        mm := (mapPagesFrom root v flags n i s taken).mm.put root recursiveIndex e } := by
  induction n generalizing i s taken with
  | zero => rfl
  | succ n ih =>
    have hi : i < count := by omega
    have htake := h.take
    -- the root is not handed out, so no call writes to it as to a new table
    have hpmm : root ∉ (pmmAllocPage s).2.pmm := by
      obtain ⟨tables, pmm⟩ := s
      cases pmm with
      | nil => exact hroot
      | cons page rest => exact fun hc => hroot (List.mem_cons_of_mem page hc)
    have hput : pmmAllocPage (s.put root recursiveIndex e) =
        ((pmmAllocPage s).1, (pmmAllocPage s).2.put root recursiveIndex e) := by
      obtain ⟨tables, pmm⟩ := s
      cases pmm with
      | nil => rfl
      | cons page rest => rfl
    have hmap : vmmMapPage ((pmmAllocPage s).2.put root recursiveIndex e) root (nthPage v i)
        (virtToPhys (pmmAllocPage s).1) flags = (_, _) :=
      vmmMapPage_put htake.wf htake.fresh hpmm (htake.tables i hi) (hslots i hi)
    have hstays : Stays root _ _ (vmmMapPage (pmmAllocPage s).2 root (nthPage v i)
        (virtToPhys (pmmAllocPage s).1) flags).2 :=
      vmmMapPage_stays htake.wf htake.fresh (htake.tables i hi)
    simp only [mapPagesFrom, hput, hmap]
    by_cases hpage : (pmmAllocPage s).1 = 0
    · rw [if_pos hpage, if_pos hpage, htake.rollback_put hslots (le_of_lt hi)]
    · rw [if_neg hpage, if_neg hpage]
      split_ifs
      · rfl
      · exact ih (by omega) (htake.mapPage hflags hi) fun hc => hpmm (hstays.pmm root hc)

/-- **A failed call leaves its mark**: the addresses before the one it
failed at are unmapped, or they stay mapped. -/
theorem vmmMapPages_leaves (h : Mappable root v count s) (hroot : root ∉ s.pmm)
    (hflags : flags < 2 ^ 64)
    (hfail : (vmmMapPages (s.put root recursiveIndex e) root v count flags).ok = false) :
    LeftBehind (s.put root recursiveIndex e) root v count flags
      (vmmMapPages (s.put root recursiveIndex e) root v count flags) := by
  have hstart : Progress s root v count flags 0 s [] := by
    refine ⟨h, rfl, ?_, fun a _ => rfl⟩
    rintro a ⟨j, hj, -⟩
    omega
  unfold vmmMapPages at hfail ⊢
  rw [mapPagesFrom_put hslots hflags count (Nat.zero_add count) h hroot] at hfail ⊢
  obtain ⟨hwf, hleft⟩ := mapPagesFrom_leaves hflags count (Nat.zero_add count) hstart hfail
  -- outside the recursive slot the entry is not seen
  have hget : ∀ a, pml4Index a ≠ recursiveIndex → ∀ tables, Wf tables root →
      vmmGetPhys (set tables root recursiveIndex e) root a = vmmGetPhys tables root a :=
    fun a ha tables hwf => vmmGetPhys_set hwf ha
  generalize mapPagesFrom root v flags count 0 s [] = r at *
  cases hleft with
  | noPage n hn htaken hcovered hothers =>
    refine .noPage n hn htaken (fun a ha hc => ?_) fun a ha hc => ?_
    · exact (hget a ha _ hwf).trans (hcovered a ha hc)
    · exact ((hget a ha _ hwf).trans (hothers a ha hc)).trans (hget a ha _ h.wf).symm
  | noTable n hn htaken hcovered hothers =>
    refine .noTable n hn htaken (fun a ha hc => ?_) fun a ha hc => ?_
    · obtain ⟨page, hpage, hgoes⟩ := hcovered a ha hc
      exact ⟨page, hpage, (hget a ha _ hwf).trans hgoes⟩
    · exact ((hget a ha _ hwf).trans (hothers a ha hc)).trans (hget a ha _ h.wf).symm

end Recursive

end Vmm

end Kos
