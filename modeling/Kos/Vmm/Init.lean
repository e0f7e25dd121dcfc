import Kos.Vmm.Calls
/-!
# Vmm — the kernel's own page tables

`vmm_init` takes a page for the kernel's PML4, maps the first gigabyte
to itself by huge pages, the kernel image into the higher half, and the
text screen, and shows the PML4 to itself in one slot.

Everywhere else in the kernel a frame is reached through
`PHYS_TO_VIRT`, the direct map of the boot page tables. The loop over
the image starts at the address of frame `0` but at the frame of 1 MB, so what
it maps is the direct map moved by 1 MB; beyond the image nothing is
mapped. No frame is where `PHYS_TO_VIRT` says it is.
-/

namespace Kos

namespace Vmm

open Radix

variable {tables : Tables ℕ} {s s' : Mm} {root : ℕ} {answers p : List ℕ}
  {t i virt phys flags kernelEnd : ℕ}

/-! ## The code -/

/-- `PT_GLOBAL`. -/
abbrev ptGlobal : ℕ := 0x100

/-- `KERNEL_TEXT_START`. -/
def kernelTextStart : ℕ := 0xFFFF800000000000

/-- The loop that maps the first gigabyte to itself. -/
def mapIdentity (s : Mm) (pml4 : ℕ) : Mm :=
  (List.range (0x40000000 / hugePageSize)).foldl
    (fun s k =>
      (vmmMapHugePage s pml4 (k * hugePageSize) (k * hugePageSize)
        (ptPresent ||| ptWritable ||| ptHuge)).2) s

/-- `kernel_size`. -/
def kernelSize (kernelEnd : ℕ) : ℕ := sub64 (virtToPhys kernelEnd) 0x100000

/-- The loop that maps the kernel; `off` takes the multiples of a page
below the size. -/
def mapKernel (s : Mm) (pml4 size : ℕ) : Mm :=
  (List.range ((size + pageSize - 1) / pageSize)).foldl
    (fun s k =>
      (vmmMapPage s pml4 (add64 kernelTextStart (k * pageSize)) (add64 0x100000 (k * pageSize))
        (ptPresent ||| ptWritable ||| ptGlobal)).2) s

/-- **`vmm_init`**, with the address of `_kernel_end`. It panics without a
page for the PML4, and does not end where `off` wraps before it has
passed the size. -/
def vmmInit (s : Mm) (kernelEnd : ℕ) : Option (ℕ × Mm) :=
  let (pml4, s) := pmmAllocPage s
  if pml4 = 0 then none
  else
    let s := { s with tables := Function.update s.tables pml4 fun _ => 0 }
    let s := mapIdentity s pml4
    if 2 ^ 64 - pageSize < kernelSize kernelEnd then none
    else
      let s := mapKernel s pml4 (kernelSize kernelEnd)
      let s := (vmmMapPage s pml4 0xFFFFFFFF800B8000 0xB8000
        (ptPresent ||| ptWritable ||| ptGlobal)).2
      some (pml4, s.put pml4 recursiveIndex (recursiveEntry pml4))

/-! ## What is mapped -/

/-- The address is not the one `PHYS_TO_VIRT` gives for what it is mapped
to, in the 48 bits that are translated. -/
def Misses (virt phys : ℕ) : Prop := phys = 0 ∨ (phys + 2 ^ 47) % 2 ^ 48 ≠ virt % 2 ^ 48

/-- **The invariant of the loops**: the tables are a tree of pages that
were answered, huge pages lie in the first gigabyte, and no address is
mapped to the frame that `PHYS_TO_VIRT` gives it for. -/
structure Loading (root : ℕ) (answers : List ℕ) (s : Mm) : Prop where
  wf : Wf s.tables root
  fresh : Fresh s root
  under : ∀ f, Under link s.tables root 3 f → f = root ∨ f ∈ answers
  pmm : ∀ a ∈ s.pmm, a ∈ answers
  huge : ∀ k < 2 ^ 27, ∀ base, absRegion s.tables root k = .huge base → k < 512 ∧ base < 2 ^ 30
  misses : ∀ virt, Misses virt ((absRegion s.tables root (regionOf virt)).translate virt)

/-- A step that takes its tables from the allocator. -/
theorem Loading.of_stays {slot : ℕ} (h : Loading root answers s) (hs : Stays root slot s s')
    (hwf : Wf s'.tables root)
    (hhuge : ∀ k < 2 ^ 27, ∀ base, absRegion s'.tables root k = .huge base → k < 512 ∧ base < 2 ^ 30)
    (hmisses : ∀ virt, Misses virt ((absRegion s'.tables root (regionOf virt)).translate virt)) :
    Loading root answers s' := by
  refine ⟨hwf, hs.fresh h.fresh, fun f hf => ?_, fun a ha => h.pmm a (hs.pmm a ha), hhuge, hmisses⟩
  rcases hs.under f hf with hf | hf
  · exact h.under f hf
  · exact Or.inr (h.pmm f hf)

/-- **A huge page of the first gigabyte.** -/
theorem Loading.mapHugePage (h : Loading root answers s) {k : ℕ} (hk : k < 512) :
    Loading root answers (vmmMapHugePage s root (k * hugePageSize) (k * hugePageSize)
      (ptPresent ||| ptWritable ||| ptHuge)).2 := by
  have hlt : k * hugePageSize < 2 ^ 52 := by
    simp only [hugePageSize]
    omega
  have hregion : regionOf (k * hugePageSize) = k := by
    simp only [regionOf, hugePageSize]
    omega
  have hround : roundTo hugePageSize (k * hugePageSize) = k * hugePageSize := by
    simp only [roundTo, hugePageSize]
    omega
  have hstays : Stays root _ s (vmmMapHugePage s root (k * hugePageSize) (k * hugePageSize)
      (ptPresent ||| ptWritable ||| ptHuge)).2 := vmmMapHugePage_stays h.wf h.fresh
  obtain ⟨hwf, hregions⟩ : Refines root s.tables
      (.mapHugePage (k * hugePageSize) (k * hugePageSize) (ptPresent ||| ptWritable ||| ptHuge) s.pmm)
      (vmmMapHugePage s root (k * hugePageSize) (k * hugePageSize)
        (ptPresent ||| ptWritable ||| ptHuge)) :=
    vmmMapHugePage_refines h.wf h.fresh hlt (by decide) (by decide)
  generalize vmmMapHugePage s root (k * hugePageSize) (k * hugePageSize)
    (ptPresent ||| ptWritable ||| ptHuge) = r at *
  have hafter : ∀ j < 2 ^ 27, absRegion r.2.tables root j =
      if r.1 = true ∧ j = k then .huge (k * hugePageSize) else absRegion s.tables root j := by
    intro j hj
    rw [hregions j hj]
    cases r.1 with
    | false => simp [Space.step]
    | true => simp [Space.step, Function.update_apply, hregion, hround]
  refine h.of_stays hstays hwf ?_ ?_
  · intro j hj base hbase
    rw [hafter j hj] at hbase
    split at hbase
    · rename_i hc
      obtain rfl := Region.huge.inj hbase
      simp only [hugePageSize]
      omega
    · exact h.huge j hj base hbase
  · intro virt
    rw [hafter _ (regionOf_lt virt)]
    split
    · -- the page is mapped to itself
      rename_i hc
      refine Or.inr ?_
      have hv := hc.2
      simp only [Region.translate, regionOf, hugePageSize] at hv ⊢
      omega
    · exact h.misses virt

/-- **A page whose address is not that of its frame.** -/
theorem Loading.mapPage (h : Loading root answers s) (hphys : phys < 2 ^ 52)
    (hvirt : virt % pageSize = 0) (halign : phys % pageSize = 0) (hregion : 512 ≤ regionOf virt)
    (hmiss : (phys + 2 ^ 47) % 2 ^ 48 ≠ virt % 2 ^ 48) :
    Loading root answers
      (vmmMapPage s root virt phys (ptPresent ||| ptWritable ||| ptGlobal)).2 := by
  have hnh : ∀ base, absRegion s.tables root (regionOf virt) ≠ .huge base := by
    intro base hbase
    have := (h.huge _ (regionOf_lt virt) base hbase).1
    omega
  have hstays : Stays root _ s
      (vmmMapPage s root virt phys (ptPresent ||| ptWritable ||| ptGlobal)).2 :=
    vmmMapPage_stays h.wf h.fresh hnh
  obtain ⟨hwf, hregions⟩ := vmmMapPage_refines h.wf h.fresh hphys
    (by decide : ptPresent ||| ptWritable ||| ptGlobal < 2 ^ 12) (by decide) hnh
  generalize vmmMapPage s root virt phys (ptPresent ||| ptWritable ||| ptGlobal) = r at *
  have hafter : ∀ j < 2 ^ 27, absRegion r.2.tables root j =
      if r.1 = true ∧ j = regionOf virt then
        (absRegion s.tables root (regionOf virt)).mapPage (frameOf virt) phys
      else absRegion s.tables root j := by
    intro j hj
    rw [hregions j hj]
    cases r.1 with
    | false => simp [Space.step]
    | true => simp [Space.step, Function.update_apply]
  refine h.of_stays hstays hwf ?_ ?_
  · intro j hj base hbase
    rw [hafter j hj] at hbase
    split at hbase
    · cases hbase
    · exact h.huge j hj base hbase
  · intro a
    rw [hafter _ (regionOf_lt a)]
    split
    · rename_i hc
      rw [Region.translate_mapPage hnh halign]
      split
      · rename_i hframe
        refine Or.inr ?_
        have hv := hc.2
        simp only [regionOf, frameOf, hugePageSize, pageSize] at *
        omega
      · rw [← hc.2]
        exact h.misses a
    · exact h.misses a

/-- **What the page allocator answers with**: pages, each at most once. -/
structure Answers (pmm : List ℕ) : Prop where
  page : ∀ a ∈ pmm, a ≠ 0 → PageAddr a
  once : pmm.Pairwise fun a b => a ≠ 0 → a ≠ b

/-- The empty PML4. -/
theorem Loading.start {rest : List ℕ} (hword : ∀ t i, tables t i < 2 ^ 64)
    (hans : Answers (root :: rest)) (hroot : root ≠ 0) :
    Loading root (root :: rest) ⟨Function.update tables root fun _ => 0, rest⟩ := by
  obtain ⟨hpage, honce⟩ := hans
  rw [List.pairwise_cons] at honce
  have hzero : ∀ i, Function.update tables root (fun _ => 0) root i = 0 := by
    intro i
    rw [Function.update_self]
  have hword' : ∀ t i, Function.update tables root (fun _ => 0) t i < 2 ^ 64 := by
    intro t i
    by_cases ht : t = root
    · rw [ht, hzero]
      exact Nat.two_pow_pos 64
    · rw [Function.update_of_ne ht]
      exact hword t i
  obtain ⟨hwf, hregions⟩ := World.Inv.zeroed hword' hzero
  refine ⟨hwf, ⟨fun a ha => hpage a (List.mem_cons_of_mem root ha), ?_, honce.2⟩, ?_,
    fun a ha => List.mem_cons_of_mem root ha, ?_, ?_⟩
  · intro a ha _ hu
    exact honce.1 a ha hroot (under_zeroed hzero hu).symm
  · intro f hf
    exact Or.inl (under_zeroed hzero hf)
  · intro k hk base hbase
    rw [hregions k hk] at hbase
    cases hbase
  · intro virt
    rw [hregions _ (regionOf_lt virt)]
    exact Or.inl rfl

theorem Loading.mapIdentity (h : Loading root answers s) :
    Loading root answers (mapIdentity s root) := by
  refine List.foldlRecOn _ _ h fun s hs k hk => ?_
  exact hs.mapHugePage (List.mem_range.1 hk)

/-- A page of the image, in 64 bits. -/
theorem kernelPage_eq {k : ℕ} (hk : k * pageSize < 2 ^ 47) :
    add64 kernelTextStart (k * pageSize) = kernelTextStart + k * pageSize := by
  refine add64_of_lt ?_
  simp only [kernelTextStart]
  omega

/-- **One page of the image**: it is above the first gigabyte, and mapped
1 MB off. -/
theorem Loading.mapKernelPage (h : Loading root answers s) {k : ℕ} (hk : k * pageSize < 2 ^ 47) :
    Loading root answers (vmmMapPage s root (add64 kernelTextStart (k * pageSize))
      (add64 0x100000 (k * pageSize)) (ptPresent ||| ptWritable ||| ptGlobal)).2 := by
  have hphys : add64 0x100000 (k * pageSize) = 0x100000 + k * pageSize := add64_of_lt (by omega)
  rw [kernelPage_eq hk, hphys]
  simp only [pageSize] at hk ⊢
  refine h.mapPage (by omega) ?_ ?_ ?_ ?_
  · simp only [kernelTextStart, pageSize]
    omega
  · simp only [pageSize]
    omega
  · simp only [regionOf, hugePageSize, kernelTextStart]
    omega
  · simp only [kernelTextStart]
    omega

theorem Loading.mapKernel {size : ℕ} (h : Loading root answers s) (hsize : size ≤ 2 ^ 47 - 0x100000) :
    Loading root answers (mapKernel s root size) := by
  refine List.foldlRecOn _ _ h fun s hs k hk => hs.mapKernelPage ?_
  have hk := List.mem_range.1 hk
  simp only [pageSize] at hk ⊢
  omega

/-- `vmm_init` where the allocator has an answer. -/
theorem vmmInit_cons (tables : Tables ℕ) (page kernelEnd : ℕ) (rest : List ℕ) :
    vmmInit ⟨tables, page :: rest⟩ kernelEnd =
      if page = 0 then none
      else if 2 ^ 64 - pageSize < kernelSize kernelEnd then none
      else
        some (page, (vmmMapPage
          (mapKernel (mapIdentity ⟨Function.update tables page fun _ => 0, rest⟩ page) page
            (kernelSize kernelEnd))
          page 0xFFFFFFFF800B8000 0xB8000 (ptPresent ||| ptWritable ||| ptGlobal)).2.put page
            recursiveIndex (recursiveEntry page)) := rfl

/-- **The tables `vmm_init` leaves**: what the loops made, and the entry
that shows the PML4 to itself. -/
theorem vmmInit_loading (hword : ∀ t i, s.tables t i < 2 ^ 64) (hans : Answers s.pmm)
    (hend : kernelHigherHalf + 0x100000 ≤ kernelEnd) (hlt : kernelEnd < 2 ^ 64)
    (h : vmmInit s kernelEnd = some (root, s')) :
    root ∈ s.pmm ∧ root ≠ 0 ∧ ∃ s₀, Loading root s.pmm s₀ ∧
      s' = s₀.put root recursiveIndex (recursiveEntry root) := by
  obtain ⟨tables, pmm⟩ := s
  have hsize : kernelSize kernelEnd ≤ 2 ^ 47 - 0x100000 := by
    simp only [kernelSize, virtToPhys, sub64, kernelHigherHalf] at *
    omega
  cases pmm with
  | nil => cases h
  | cons page rest =>
    rw [vmmInit_cons] at h
    by_cases hpage : page = 0
    · rw [if_pos hpage] at h
      cases h
    · rw [if_neg hpage, if_neg (by simp only [pageSize]; omega)] at h
      obtain ⟨rfl, rfl⟩ := Prod.mk.inj (Option.some.inj h)
      refine ⟨List.mem_cons_self, hpage, _, ?_, rfl⟩
      have hkernel := ((Loading.start hword hans hpage).mapIdentity).mapKernel hsize
      exact hkernel.mapPage (by decide) (by decide) (by decide) (by decide) (by decide)

/-! ## The slot in which the PML4 shows itself -/

theorem recursiveEntry_eq (pml4 : ℕ) : recursiveEntry pml4 = linkEntry pml4 := Nat.or_assoc ..

/-- The entry leads to the PML4 itself. -/
theorem recursiveEntry_spec (h : PageAddr root) :
    isPresent (recursiveEntry root) = true ∧ isHuge (recursiveEntry root) = false ∧
      tableOf (recursiveEntry root) = root := by
  obtain ⟨hlink, -, hhuge⟩ := link_linkEntry h
  rw [recursiveEntry_eq]
  cases hpres : isPresent (linkEntry root) with
  | false =>
    rw [link_of_not_present hpres] at hlink
    cases hlink
  | true =>
    rw [link_of_present hpres hhuge] at hlink
    exact ⟨rfl, hhuge, Option.some.inj hlink⟩

/-- A path of indices that an address can have. -/
def Path (p : List ℕ) : Prop := ∀ i ∈ p, i < 512

section Shown

variable (h : Loading root answers s) (hroot : PageAddr root)
  (ht : walk link s.tables root p = some t) (hpath : Path p) (hi : i < 512)
  (hpres : isPresent (set s.tables root recursiveIndex (recursiveEntry root) t i) = true)
include h hroot ht hpath hi hpres

/-- From an upper table the walk goes on to a table. -/
theorem Loading.shown (hp : p.length ≤ 1) :
    let e := set s.tables root recursiveIndex (recursiveEntry root) t i
    isHuge e = false ∧
      ∃ q, q.length ≤ p.length + 1 ∧ Path q ∧ walk link s.tables root q = some (tableOf e) := by
  intro e
  obtain ⟨-, hhuge, htable⟩ := recursiveEntry_spec hroot
  by_cases hc : t = root ∧ i = recursiveIndex
  · obtain ⟨rfl, rfl⟩ := hc
    have he : e = recursiveEntry t := set_self _ _ _ _
    rw [he, htable]
    exact ⟨hhuge, [], Nat.zero_le _, fun i hi => absurd hi List.not_mem_nil, rfl⟩
  · have he : e = s.tables t i := set_of_ne hc
    change isPresent e = true at hpres
    rw [he] at hpres ⊢
    have hnot := h.wf.upper p t hp ht i hpres
    refine ⟨hnot, p ++ [i], by simp, ?_, ?_⟩
    · intro j hj
      rcases List.mem_append.1 hj with hj | hj
      · exact hpath j hj
      · rw [List.mem_singleton.1 hj]
        exact hi
    · rw [walk_snoc, ht, Option.bind_some, link_of_present hpres hnot]

/-- **What a walk can end at**: a table, or a frame of the first gigabyte. -/
theorem Loading.shown_frame (hp : p.length ≤ 2) :
    let e := set s.tables root recursiveIndex (recursiveEntry root) t i
    e < 2 ^ 30 ∨ tableOf e = root ∨ tableOf e ∈ answers := by
  intro e
  obtain ⟨-, -, htable⟩ := recursiveEntry_spec hroot
  by_cases hc : t = root ∧ i = recursiveIndex
  · obtain ⟨rfl, rfl⟩ := hc
    have he : e = recursiveEntry t := set_self _ _ _ _
    rw [he, htable]
    exact Or.inr (Or.inl rfl)
  · have he : e = s.tables t i := set_of_ne hc
    change isPresent e = true at hpres
    rw [he] at hpres ⊢
    cases hhuge : isHuge (s.tables t i) with
    | false =>
      have hlen : (p ++ [i]).length ≤ 3 := by
        rw [List.length_append, List.length_singleton]
        omega
      refine Or.inr (h.under _ ⟨p ++ [i], hlen, ?_⟩)
      rw [walk_snoc, ht, Option.bind_some, link_of_present hpres hhuge]
    | true =>
      -- only a directory has huge entries, and their regions are known
      refine Or.inl ?_
      have hlen : p.length = 2 := by
        by_contra hne
        rw [h.wf.upper p t (by omega) ht i hpres] at hhuge
        cases hhuge
      obtain ⟨a, b, rfl⟩ := List.length_eq_two.1 hlen
      have ha : a < 512 := hpath a (by simp)
      have hb : b < 512 := hpath b (by simp)
      have hdir : dirPath (a * 2 ^ 18 + b * 512 + i) = [a, b] := by
        simp only [dirPath, List.cons.injEq, and_true]
        omega
      have hindex : (a * 2 ^ 18 + b * 512 + i) % 512 = i := by omega
      have hregion : absRegion s.tables root (a * 2 ^ 18 + b * 512 + i) =
          .huge (roundTo hugePageSize (s.tables t i)) := by
        rw [absRegion, hdir, ht]
        simp only
        rw [hindex, entryRegion, hpres, hhuge]
        rfl
      have hlow := (h.huge _ (by omega) _ hregion).2
      simp only [roundTo, hugePageSize] at hlow
      omega

end Shown

/-- **In the slot of the PML4 the page tables are seen**, and frames of the
first gigabyte. -/
theorem Loading.window (h : Loading root answers s) (hroot : PageAddr root)
    (hslot : pml4Index virt = recursiveIndex)
    (hget : vmmGetPhys (set s.tables root recursiveIndex (recursiveEntry root)) root virt = phys) :
    phys < 2 ^ 30 ∨ physToVirt (roundTo pageSize phys) = root ∨
      physToVirt (roundTo pageSize phys) ∈ answers := by
  obtain ⟨hpres₀, -, htable₀⟩ := recursiveEntry_spec hroot
  have hword : ∀ t i, set s.tables root recursiveIndex (recursiveEntry root) t i < 2 ^ 64 := by
    intro t i
    refine h.wf.word_set (p := []) rfl ?_ t i
    rw [recursiveEntry_eq]
    exact (link_linkEntry hroot).2.1
  have hpdpt : pdptIndex virt < 512 := by
    rw [pdptIndex_eq]
    exact Nat.mod_lt _ (by decide)
  have hpd : pdIndex virt < 512 := by
    rw [pdIndex_eq]
    exact Nat.mod_lt _ (by decide)
  have hpt : ptIndex virt < 512 := by
    rw [ptIndex_eq]
    exact Nat.mod_lt _ (by decide)
  have hunmapped : 0 = phys → phys < 2 ^ 30 := by
    rintro rfl
    decide
  unfold vmmGetPhys at hget
  rw [hslot] at hget
  simp only [set_self, hpres₀, htable₀, Bool.not_true, Bool.false_eq_true, if_false] at hget
  -- the PML4 stands for the first table, so each level reads one level higher up
  split at hget
  · exact Or.inl (hunmapped hget)
  · rename_i hpres₁
    obtain ⟨-, q₁, hlen₁, hpath₁, hwalk₁⟩ := h.shown (p := []) hroot rfl
      (fun i hi => absurd hi List.not_mem_nil) hpdpt (by simpa using hpres₁) (Nat.zero_le 1)
    split at hget
    · exact Or.inl (hunmapped hget)
    · rename_i hpres₂
      obtain ⟨hhuge, q₂, hlen₂, hpath₂, hwalk₂⟩ := h.shown hroot hwalk₁ hpath₁ hpd
        (by simpa using hpres₂) hlen₁
      have hlen₁ : q₁.length ≤ 1 := hlen₁
      rw [hhuge, if_neg Bool.false_ne_true] at hget
      split at hget
      · exact Or.inl (hunmapped hget)
      · rename_i hpres₃
        have hframe := h.shown_frame hroot hwalk₂ hpath₂ hpt (by simpa using hpres₃)
          (by omega)
        simp only at hframe
        generalize set s.tables root recursiveIndex (recursiveEntry root) = shown at *
        have hword₃ := hword (tableOf (shown (tableOf (shown root (pdptIndex virt)))
          (pdIndex virt))) (ptIndex virt)
        generalize shown (tableOf (shown (tableOf (shown root (pdptIndex virt))) (pdIndex virt)))
          (ptIndex virt) = e at *
        have hoff : virt &&& (pageSize - 1) = virt % 2 ^ 12 :=
          Nat.and_two_pow_sub_one_eq_mod virt 12
        have hmask : e &&& pageMask = 2 ^ 12 * (e / 2 ^ 12) := land_highMask hword₃ (by decide)
        have hphys : phys = 2 ^ 12 * (e / 2 ^ 12) + virt % 2 ^ 12 := by
          rw [← hget, hoff, hmask, two_pow_mul_lor (Nat.mod_lt _ (Nat.two_pow_pos 12))]
        have hround : roundTo pageSize phys = e &&& pageMask := by
          rw [hmask, hphys]
          simp only [roundTo, pageSize]
          omega
        rcases hframe with hlow | hframe
        · left
          omega
        · right
          rw [hround]
          exact hframe

/-! ## The direct map -/

/-- **No frame is where `PHYS_TO_VIRT` says it is**, but for a page table
that the slot of the PML4 happens to show there. -/
theorem Loading.not_direct (h : Loading root answers s) (hroot : PageAddr root)
    (hmem : root ∈ answers) (hpos : 0 < phys) (hlt : phys < 2 ^ 64)
    (hslot : pml4Index (physToVirt phys) = recursiveIndex →
      physToVirt (roundTo pageSize phys) ∉ answers) :
    vmmGetPhys (s.put root recursiveIndex (recursiveEntry root)).tables root (physToVirt phys) ≠
      phys := by
  intro hget
  rw [put_tables] at hget
  by_cases hwin : pml4Index (physToVirt phys) = recursiveIndex
  · have hnot := hslot hwin
    rcases h.window hroot hwin hget with hlow | hpage | hpage
    · -- frames of the first gigabyte are in another slot
      rw [pml4Index_eq] at hwin
      simp only [regionOf, physToVirt, add64, kernelHigherHalf, hugePageSize, recursiveIndex] at hwin
      omega
    · exact hnot (hpage ▸ hmem)
    · exact hnot hpage
  · rw [vmmGetPhys_set h.wf hwin, h.wf.vmmGetPhys_eq] at hget
    have hmiss := h.misses (physToVirt phys)
    rw [hget] at hmiss
    simp only [Misses, physToVirt, add64, kernelHigherHalf] at hmiss
    omega

/-- **After `vmm_init` the direct map is gone.** Whatever pages the
allocator answered and however large the image is, no frame is
translated to from the address `PHYS_TO_VIRT` gives for it. The page
tables themselves are seen in the slot of the PML4, and only there could
one of them stand at its own address. -/
theorem direct_map_lost (hword : ∀ t i, s.tables t i < 2 ^ 64) (hans : Answers s.pmm)
    (hend : kernelHigherHalf + 0x100000 ≤ kernelEnd) (hlt : kernelEnd < 2 ^ 64)
    (hinit : vmmInit s kernelEnd = some (root, s')) (hpos : 0 < phys) (hphys : phys < 2 ^ 64)
    (hslot : pml4Index (physToVirt phys) = recursiveIndex →
      physToVirt (roundTo pageSize phys) ∉ s.pmm) :
    vmmGetPhys s'.tables root (physToVirt phys) ≠ phys := by
  obtain ⟨hmem, hne, s₀, hload, rfl⟩ := vmmInit_loading hword hans hend hlt hinit
  exact hload.not_direct (hans.page root hmem hne) hmem hpos hphys hslot

/-- Eight pages from 2 MB on: the PML4, two tables for the first gigabyte,
and five for the image and the screen. -/
def eightPages : List ℕ := (List.range 8).map fun k => physToVirt (0x200000 + k * pageSize)

theorem eightPages_answers : Answers eightPages := by
  have hpages : ∀ a ∈ eightPages, a ≠ 0 ∧ a < 2 ^ 64 ∧ a % pageSize = 0 := by decide
  refine ⟨?_, by decide⟩
  intro a ha _
  exact ⟨(hpages a ha).1, (hpages a ha).2.1, (hpages a ha).2.2⟩

theorem vmmInit_eightPages :
    ∃ s', vmmInit ⟨fun _ _ => 0, eightPages⟩ (kernelHigherHalf + 0x101000) =
      some (physToVirt 0x200000, s') := by
  have hpages : eightPages = physToVirt 0x200000 :: eightPages.tail := by decide
  rw [hpages, vmmInit_cons, if_neg (by decide), if_neg (by decide)]
  exact ⟨_, rfl⟩

/-- An image of one page, and the first frame after the page tables. -/
theorem direct_map_lost_next_frame :
    ∃ s', vmmInit ⟨fun _ _ => 0, eightPages⟩ (kernelHigherHalf + 0x101000) =
        some (physToVirt 0x200000, s') ∧
      vmmGetPhys s'.tables (physToVirt 0x200000) (physToVirt 0x208000) ≠ 0x208000 := by
  obtain ⟨s', hinit⟩ := vmmInit_eightPages
  refine ⟨s', hinit, ?_⟩
  exact direct_map_lost (fun _ _ => Nat.two_pow_pos 64) eightPages_answers (by decide) (by decide)
    hinit (by decide) (by decide) (by decide)

/-- **The PML4 itself is out of reach**: its frame was handed out by the
allocator, and the pointer to it is not mapped to it any more. -/
theorem pml4_not_mapped :
    ∃ s', vmmInit ⟨fun _ _ => 0, eightPages⟩ (kernelHigherHalf + 0x101000) =
        some (physToVirt 0x200000, s') ∧ physToVirt 0x200000 ∈ eightPages ∧
      vmmGetPhys s'.tables (physToVirt 0x200000) (physToVirt 0x200000) ≠ 0x200000 := by
  obtain ⟨s', hinit⟩ := vmmInit_eightPages
  obtain ⟨hmem, hne, s₀, hload, rfl⟩ := vmmInit_loading (fun _ _ => Nat.two_pow_pos 64)
    eightPages_answers (by decide) (by decide) hinit
  refine ⟨_, hinit, hmem, ?_⟩
  exact hload.not_direct (eightPages_answers.page _ hmem hne) hmem (by decide) (by decide)
    fun hc => absurd hc (by decide)

end Vmm

end Kos
