import Kos.Vmm.Refinement
/-!
# Vmm — what mapping one page writes

`get_or_create_table` follows any present entry, so where a region is
one huge page `vmm_map_page` takes the huge page for a page table and
writes its entry into the mapped memory. Everywhere else the frames it
writes are page tables, the page is mapped, and no other page notices.
-/

namespace Kos

namespace Vmm

open Radix

variable {tables : Tables ℕ} {s : Mm} {root : ℕ} {p q : List ℕ} {t u i virt phys flags : ℕ}

/-! ## The frames written -/

/-- The frames `get_or_create_table` writes: the new table, which is
cleared, and the table that links it. -/
def tableWrites (s : Mm) (parent index : ℕ) : List ℕ :=
  if isPresent (s.tables parent index) then []
  else
    let table := (pmmAllocPage s).1
    if table = 0 then [] else [table, parent]

/-- **The frames `vmm_map_page` writes**, in order. -/
def mapPageWrites (s : Mm) (pml4 virt : ℕ) : List ℕ :=
  let (pdpt, s₁) := getOrCreateTable s pml4 (pml4Index virt) (ptPresent ||| ptWritable)
  let (pd, s₂) := getOrCreateTable s₁ pdpt (pdptIndex virt) (ptPresent ||| ptWritable)
  let (pt, _) := getOrCreateTable s₂ pd (pdIndex virt) (ptPresent ||| ptWritable)
  tableWrites s pml4 (pml4Index virt) ++
    if pdpt = 0 then []
    else tableWrites s₁ pdpt (pdptIndex virt) ++
      if pd = 0 then []
      else tableWrites s₂ pd (pdIndex virt) ++ if pt = 0 then [] else [pt]

theorem mem_tableWrites {f : ℕ} (h : f ∈ tableWrites s t i) :
    f = t ∨ f = (getOrCreateTable s t i (ptPresent ||| ptWritable)).1 := by
  unfold tableWrites at h
  unfold getOrCreateTable
  split at h
  · cases h
  · rename_i hpres
    rw [if_neg hpres]
    simp only at h ⊢
    split at h
    · cases h
    · rename_i hne
      rw [if_neg hne]
      simp only [List.mem_cons, List.not_mem_nil, or_false] at h
      exact h.symm

theorem set_row_of_ne {e f : ℕ} (h : f ≠ t) : set tables t i e f = tables f :=
  Function.update_of_ne h ..

/-- What is not written stays. -/
theorem getOrCreateTable_frame {f : ℕ} (h : f ∉ tableWrites s t i) :
    (getOrCreateTable s t i (ptPresent ||| ptWritable)).2.tables f = s.tables f := by
  obtain ⟨-, hr⟩ | ⟨-, hr⟩ | ⟨new, rest, hold, hn, hpmm, hr⟩ := getOrCreateTable_cases s t i
  · rw [hr]
  · rw [hr]
  · rw [hr]
    have hwrites : tableWrites s t i = [new, t] := by
      simp [tableWrites, hold, pmmAllocPage, hpmm, hn]
    rw [hwrites, List.mem_cons, List.mem_singleton, not_or] at h
    exact (set_row_of_ne h.2).trans (Function.update_of_ne h.1 ..)

/-- **A frame that is not among those written keeps its contents.** -/
theorem vmmMapPage_frame {f : ℕ} (h : f ∉ mapPageWrites s root virt) :
    (vmmMapPage s root virt phys flags).2.tables f = s.tables f := by
  unfold mapPageWrites at h
  unfold vmmMapPage
  simp only [List.mem_append, not_or] at h ⊢
  obtain ⟨h₁, h⟩ := h
  have hpdpt := getOrCreateTable_frame h₁
  split
  · exact hpdpt
  · rename_i hne
    rw [if_neg hne, List.mem_append, not_or] at h
    obtain ⟨h₂, h⟩ := h
    have hpd := getOrCreateTable_frame h₂
    split
    · exact hpd.trans hpdpt
    · rename_i hne'
      rw [if_neg hne', List.mem_append, not_or] at h
      obtain ⟨h₃, h⟩ := h
      have hpt := getOrCreateTable_frame h₃
      split
      · exact hpt.trans (hpd.trans hpdpt)
      · rename_i hne''
        rw [if_neg hne'', List.mem_singleton] at h
        rw [put_cleared, set_row_of_ne h]
        exact hpt.trans (hpd.trans hpdpt)

/-! ## Where a region is no huge page -/

/-- Opening a table keeps every table where it is. -/
theorem getOrCreateTable_walk (h : Wf s.tables root) (hf : Fresh s root) (hp : p.length ≤ 2)
    (ht : walk link s.tables root p = some t) (hq : q.length ≤ 3)
    (hu : walk link s.tables root q = some u) :
    walk link (getOrCreateTable s t i (ptPresent ||| ptWritable)).2.tables root q = some u := by
  obtain ⟨-, hr⟩ | ⟨-, hr⟩ | ⟨new, rest, hold, hn, hpmm, hr⟩ := getOrCreateTable_cases s t i
  · rw [hr]
    exact hu
  · rw [hr]
    exact hu
  · have hmem : new ∈ s.pmm := by
      rw [hpmm]
      exact List.mem_cons_self
    have hne : q ≠ p ++ [i] := by
      rintro rfl
      rw [walk_snoc, ht, Option.bind_some, link_of_not_present hold] at hu
      cases hu
    rw [hr]
    rw [h.walk_link ht hold (hf.page new hmem hn) (hf.unused new hmem hn) hp hq, if_neg hne]
    exact hu

/-- The three tables a successful `vmm_map_page` opens. -/
structure Opened (s : Mm) (root virt pdpt pd pt : ℕ) (s₁ s₂ s₃ : Mm) : Prop where
  pdpt_eq : getOrCreateTable s root (pml4Index virt) (ptPresent ||| ptWritable) = (pdpt, s₁)
  pd_eq : getOrCreateTable s₁ pdpt (pdptIndex virt) (ptPresent ||| ptWritable) = (pd, s₂)
  pt_eq : getOrCreateTable s₂ pd (pdIndex virt) (ptPresent ||| ptWritable) = (pt, s₃)
  pdpt_ne : pdpt ≠ 0
  pd_ne : pd ≠ 0
  pt_ne : pt ≠ 0

/-- **A mapping that succeeds opens three tables and writes one entry.** -/
theorem vmmMapPage_opened (hok : (vmmMapPage s root virt phys flags).1 = true) :
    ∃ pdpt pd pt s₁ s₂ s₃, Opened s root virt pdpt pd pt s₁ s₂ s₃ ∧
      (vmmMapPage s root virt phys flags).2.tables =
        set s₃.tables pt (ptIndex virt) (phys &&& pageMask ||| flags) := by
  unfold vmmMapPage at hok ⊢
  simp only at hok ⊢
  split at hok
  · cases hok
  · rename_i h₁
    split at hok
    · cases hok
    · rename_i h₂
      split at hok
      · cases hok
      · rename_i h₃
        refine ⟨_, _, _, _, _, _, ⟨rfl, rfl, rfl, h₁, h₂, h₃⟩, ?_⟩
        rw [if_neg h₁, if_neg h₂, if_neg h₃]
        exact put_cleared _ _ _ _

section Opened

variable {pdpt pd pt : ℕ} {s₁ s₂ s₃ : Mm} (ho : Opened s root virt pdpt pd pt s₁ s₂ s₃)
include ho

/-- The frames written are the root and the tables opened. -/
theorem Opened.mem_writes {f : ℕ} (hf : f ∈ mapPageWrites s root virt) :
    f = root ∨ f = pdpt ∨ f = pd ∨ f = pt := by
  unfold mapPageWrites at hf
  simp only [ho.pdpt_eq, ho.pd_eq, ho.pt_eq, if_neg ho.pdpt_ne, if_neg ho.pd_ne, if_neg ho.pt_ne,
    List.mem_append, List.mem_singleton] at hf
  rcases hf with hf | hf | hf | rfl
  · have := mem_tableWrites hf
    rw [ho.pdpt_eq] at this
    exact this.imp_right Or.inl
  · have := mem_tableWrites hf
    rw [ho.pd_eq] at this
    exact Or.inr (this.imp_right Or.inl)
  · have := mem_tableWrites hf
    rw [ho.pt_eq] at this
    exact Or.inr (Or.inr this)
  · exact Or.inr (Or.inr (Or.inr rfl))

/-- The page table is written last. -/
theorem Opened.pt_mem_writes : pt ∈ mapPageWrites s root virt := by
  unfold mapPageWrites
  simp only [ho.pdpt_eq, ho.pd_eq, ho.pt_eq, if_neg ho.pdpt_ne, if_neg ho.pd_ne, if_neg ho.pt_ne,
    List.mem_append, List.mem_singleton, or_true]

/-- **The tables opened stand on the path of the address**, where its
region is no huge page. -/
theorem Opened.walks (h : Wf s.tables root) (hf : Fresh s root)
    (hnh : ∀ base, absRegion s.tables root (regionOf virt) ≠ .huge base) :
    Wf s₃.tables root ∧ walk link s₃.tables root [pml4Index virt] = some pdpt ∧
      walk link s₃.tables root [pml4Index virt, pdptIndex virt] = some pd ∧
      walk link s₃.tables root [pml4Index virt, pdptIndex virt, pdIndex virt] = some pt := by
  have hr := regionOf_lt virt
  -- the first table
  obtain ⟨hkept₁, hwalk₁⟩ := getOrCreateTable_upper (p := []) (i := pml4Index virt) h hf
    (Nat.zero_le 1) rfl
  rw [ho.pdpt_eq] at hkept₁ hwalk₁
  have hpdpt : walk link s₁.tables root [pml4Index virt] = some pdpt := hwalk₁ ho.pdpt_ne
  -- the second, under the first
  have hlen₁ : [pml4Index virt].length ≤ 1 := Nat.le_refl 1
  obtain ⟨hkept₂, hwalk₂⟩ := getOrCreateTable_upper (p := [pml4Index virt]) (i := pdptIndex virt)
    hkept₁.wf hkept₁.fresh hlen₁ hpdpt
  have hkeep₂ := getOrCreateTable_walk (p := [pml4Index virt]) (i := pdptIndex virt) hkept₁.wf
    hkept₁.fresh (by omega) hpdpt (by omega) hpdpt
  rw [ho.pd_eq] at hkept₂ hwalk₂ hkeep₂
  have hpd : walk link s₂.tables root (dirPath (regionOf virt)) = some pd := by
    rw [dirPath_regionOf]
    exact hwalk₂ ho.pd_ne
  -- the third, under the second
  have hnh₂ : ∀ base, absRegion s₂.tables root (regionOf virt) ≠ .huge base := by
    intro base
    rw [hkept₂.regions _ hr, hkept₁.regions _ hr]
    exact hnh base
  have hlen₂ : (dirPath (regionOf virt)).length ≤ 2 := Nat.le_refl 2
  obtain ⟨hwf, -, hopen⟩ := getOrCreateTable_table hkept₂.wf hkept₂.fresh hr hnh₂ hpd
  have hkeep₃ : ∀ q v, q.length ≤ 3 → walk link s₂.tables root q = some v →
      walk link s₃.tables root q = some v := by
    intro q v hq hv
    have := getOrCreateTable_walk (i := pdIndex virt) hkept₂.wf hkept₂.fresh hlen₂ hpd hq hv
    rwa [ho.pt_eq] at this
  rw [← pdIndex_eq, ho.pt_eq] at hwf hopen
  have hpt := (hopen ho.pt_ne).1
  rw [dirPath_regionOf] at hpd hpt
  exact ⟨hwf, hkeep₃ _ _ (by omega) hkeep₂, hkeep₃ _ _ (Nat.le_succ 2) hpd, hpt⟩

end Opened

/-- **The frames written are page tables** of the hierarchy that results. -/
theorem mapPageWrites_under (h : Wf s.tables root) (hf : Fresh s root)
    (hnh : ∀ base, absRegion s.tables root (regionOf virt) ≠ .huge base)
    (hok : (vmmMapPage s root virt phys flags).1 = true) :
    ∀ f ∈ mapPageWrites s root virt,
      Under link (vmmMapPage s root virt phys flags).2.tables root 3 f := by
  obtain ⟨pdpt, pd, pt, s₁, s₂, s₃, ho, htables⟩ := vmmMapPage_opened hok
  obtain ⟨hwf, hpdpt, hpd, hpt⟩ := ho.walks h hf hnh
  -- the last write is to an entry of the page table and moves no table
  have hlast : ∀ q : List ℕ, q.length ≤ 3 →
      walk link (vmmMapPage s root virt phys flags).2.tables root q =
        walk link s₃.tables root q := by
    intro q hq
    rw [htables]
    exact hwf.tree.walk_set_leaf rfl hpt hq
  intro f hmem
  rcases ho.mem_writes hmem with rfl | rfl | rfl | rfl
  · exact ⟨[], Nat.zero_le 3, rfl⟩
  · exact ⟨[pml4Index virt], by simp, (hlast _ (by simp)).trans hpdpt⟩
  · exact ⟨[pml4Index virt, pdptIndex virt], by simp, (hlast _ (by simp)).trans hpd⟩
  · exact ⟨[pml4Index virt, pdptIndex virt, pdIndex virt], by simp, (hlast _ (by simp)).trans hpt⟩

/-! ## Where a region is a huge page -/

/-- **In a huge page the entry is written into the page itself.** -/
theorem mapPageWrites_huge {base : ℕ} (h : Wf s.tables root)
    (hhuge : absRegion s.tables root (regionOf virt) = .huge base)
    (hok : (vmmMapPage s root virt phys flags).1 = true) :
    ∃ k < 512, physToVirt (base + pageSize * k) ∈ mapPageWrites s root virt ∧
      (vmmMapPage s root virt phys flags).2.tables =
        set s.tables (physToVirt (base + pageSize * k)) (ptIndex virt)
          (phys &&& pageMask ||| flags) := by
  obtain ⟨pdpt, pd, pt, s₁, s₂, s₃, ho, htables⟩ := vmmMapPage_opened hok
  have hdir := h.walk_dir virt
  rw [absRegion] at hhuge
  split at hdir
  · rw [hdir] at hhuge
    cases hhuge
  rename_i hp₁
  simp only at hdir
  split at hdir
  · rw [hdir] at hhuge
    cases hhuge
  rename_i hp₂
  rw [hdir] at hhuge
  -- every entry on the way is present, so nothing is allocated
  have h₁ : (tableOf (s.tables root (pml4Index virt)), s) = (pdpt, s₁) := by
    rw [← ho.pdpt_eq, getOrCreateTable, if_pos (by simpa using hp₁)]
  obtain ⟨rfl, rfl⟩ := Prod.mk.inj h₁
  have h₂ : (tableOf (s.tables (tableOf (s.tables root (pml4Index virt))) (pdptIndex virt)), s) =
      (pd, s₂) := by
    rw [← ho.pd_eq, getOrCreateTable, if_pos (by simpa using hp₂)]
  obtain ⟨rfl, rfl⟩ := Prod.mk.inj h₂
  generalize tableOf (s.tables (tableOf (s.tables root (pml4Index virt))) (pdptIndex virt)) = pd
    at *
  simp only [← pdIndex_eq] at hhuge
  rw [entryRegion] at hhuge
  split at hhuge
  · cases hhuge
  rename_i hp₃
  split at hhuge
  · have h₃ : (tableOf (s.tables pd (pdIndex virt)), s) = (pt, s₃) := by
      rw [← ho.pt_eq, getOrCreateTable, if_pos (by simpa using hp₃)]
    obtain ⟨rfl, rfl⟩ := Prod.mk.inj h₃
    have hbase : roundTo hugePageSize (s.tables pd (pdIndex virt)) = base := Region.huge.inj hhuge
    have hword := h.word pd (pdIndex virt)
    have hpt : tableOf (s.tables pd (pdIndex virt)) =
        physToVirt (base + pageSize * (s.tables pd (pdIndex virt) / pageSize % 512)) := by
      rw [tableOf, land_pageMask hword, ← hbase]
      congr 1
      simp only [roundTo, hugePageSize, pageSize]
      omega
    rw [hpt] at ho htables
    exact ⟨_, Nat.mod_lt _ (by decide), ho.pt_mem_writes, htables⟩
  · cases hhuge

/-! ## Runs -/

/-- The number of the page of an address; the bits above 47 are ignored. -/
def pageOf (virt : ℕ) : ℕ := virt / pageSize % 2 ^ 36

theorem pageOf_eq_iff {a b : ℕ} :
    pageOf a = pageOf b ↔ regionOf a = regionOf b ∧ frameOf a = frameOf b := by
  simp only [pageOf, regionOf, frameOf, hugePageSize, pageSize]
  omega

/-- **What mapping one page must do**: the page is mapped to the frame, the
other pages are translated as before, only page tables are written, and
every other frame keeps its contents. -/
structure MapsOnePage (before after : Tables ℕ) (root virt phys : ℕ) (writes : List ℕ) : Prop where
  mapped : ∀ a, pageOf a = pageOf virt → vmmGetPhys after root a = phys + a % pageSize
  others : ∀ a, pageOf a ≠ pageOf virt → vmmGetPhys after root a = vmmGetPhys before root a
  writes : ∀ f ∈ writes, Under link after root 3 f
  kept : ∀ f, ¬ Under link after root 3 f → after f = before f

/-- Setting a frame of a region that is no huge page. -/
theorem Region.translate_mapPage {r : Region} {a : ℕ} (hnh : ∀ base, r ≠ .huge base)
    (hphys : phys % pageSize = 0) :
    (r.mapPage i phys).translate a =
      if frameOf a = i then phys + a % pageSize else r.translate a := by
  have hround : roundTo pageSize phys = phys := by
    simp only [roundTo, pageSize] at *
    omega
  by_cases hi : frameOf a = i
  · simp only [Region.mapPage, Region.translate, Function.update_apply, hround, if_pos hi]
  · simp only [Region.mapPage, Region.translate, Function.update_apply, if_neg hi]
    cases r with
    | empty => rfl
    | huge base => exact absurd rfl (hnh base)
    | table frames => rfl

/-- **Outside huge pages a mapping is as it must be.** -/
theorem mapsOnePage_of_not_huge (h : Wf s.tables root) (hf : Fresh s root)
    (hargs : LeafArgs phys flags) (hphys : phys % pageSize = 0)
    (hnh : ∀ base, absRegion s.tables root (regionOf virt) ≠ .huge base)
    (hok : (vmmMapPage s root virt phys flags).1 = true) :
    MapsOnePage s.tables (vmmMapPage s root virt phys flags).2.tables root virt phys
      (mapPageWrites s root virt) := by
  have href := vmmMapPage_refines h hf hargs.phys_lt hargs.flags_lt hargs.present hnh
  have hafter : ∀ a, vmmGetPhys (vmmMapPage s root virt phys flags).2.tables root a =
      if regionOf a = regionOf virt then
        ((absRegion s.tables root (regionOf virt)).mapPage (frameOf virt) phys).translate a
      else vmmGetPhys s.tables root a := by
    intro a
    rw [href.wf.vmmGetPhys_eq, h.vmmGetPhys_eq, href.regions _ (regionOf_lt a), hok]
    simp only [Space.step, Bool.not_true, Bool.false_eq_true, if_false, Function.update_apply]
    split <;> rfl
  have hunder := mapPageWrites_under h hf hnh hok
  refine ⟨?_, ?_, hunder, fun f hf => vmmMapPage_frame fun hmem => hf (hunder f hmem)⟩
  · intro a ha
    obtain ⟨hregion, hframe⟩ := pageOf_eq_iff.1 ha
    rw [hafter, if_pos hregion, Region.translate_mapPage hnh hphys, if_pos hframe]
  · intro a ha
    rw [hafter]
    split
    · rename_i hregion
      have hframe : frameOf a ≠ frameOf virt := fun hc => ha (pageOf_eq_iff.2 ⟨hregion, hc⟩)
      rw [Region.translate_mapPage hnh hphys, if_neg hframe, h.vmmGetPhys_eq, hregion]
    · rfl

/-- **In a huge page of ordinary memory it is not**: the page is written to. -/
theorem not_mapsOnePage_of_huge {base : ℕ} (h : Wf s.tables root)
    (hhuge : absRegion s.tables root (regionOf virt) = .huge base)
    (hmem : ∀ k < 512, ¬ Under link s.tables root 3 (physToVirt (base + pageSize * k)))
    (hok : (vmmMapPage s root virt phys flags).1 = true) :
    ¬ MapsOnePage s.tables (vmmMapPage s root virt phys flags).2.tables root virt phys
      (mapPageWrites s root virt) := by
  rintro ⟨-, -, hwrites, -⟩
  obtain ⟨k, hk, hw, htables⟩ := mapPageWrites_huge h hhuge hok
  obtain ⟨q, hq, hwalk⟩ := hwrites _ hw
  rw [htables] at hwalk
  -- the frame was under no table before, and writing to it links it nowhere
  have hsame : walk link (set s.tables (physToVirt (base + pageSize * k)) (ptIndex virt)
      (phys &&& pageMask ||| flags)) root q = walk link s.tables root q :=
    walk_update_of_not_under (hmem k hk) (by omega)
  rw [hsame] at hwalk
  exact hmem k hk ⟨q, hq, hwalk⟩

/-- A hierarchy built from a zeroed PML4 by calls of which none mapped a
page into a huge page, with the address space the calls mean. -/
def Built (root : ℕ) (w : World) : Prop :=
  ∃ (tables : Tables ℕ) (ops : List Op), (∀ t i, tables t i < 2 ^ 64) ∧
    (∀ i, tables root i = 0) ∧
    Allowed (World.step root) (Permitted root) ⟨tables, fun _ => .empty⟩ ops ∧
    runFrom (World.step root) ⟨tables, fun _ => .empty⟩ ops = w

theorem Built.inv {w : World} (h : Built root w) : w.Inv root := by
  obtain ⟨tables, ops, hword, hzero, hrun, rfl⟩ := h
  exact hrun.invariant (P := World.Inv root) (fun w op => World.Inv.step)
    (World.Inv.zeroed hword hzero)

/-- **Mapping one page.** After every run in which no page was mapped into
a huge page, a call of `vmm_map_page` that succeeds maps its page and
nothing else, and writes to page tables only, if its region is no huge
page. If it is one, of memory that holds no page table, the call writes
to that memory. -/
theorem map_page_exact {w : World} (h : Built root w) {pmm : List ℕ}
    (hargs : LeafArgs phys flags) (hphys : phys % pageSize = 0)
    (hfresh : Fresh ⟨w.tables, pmm⟩ root)
    (hok : (vmmMapPage ⟨w.tables, pmm⟩ root virt phys flags).1 = true) :
    ((∀ base, w.space (regionOf virt) ≠ .huge base) →
      MapsOnePage w.tables (vmmMapPage ⟨w.tables, pmm⟩ root virt phys flags).2.tables root virt phys
        (mapPageWrites ⟨w.tables, pmm⟩ root virt)) ∧
    ∀ base, w.space (regionOf virt) = .huge base →
      (∀ k < 512, ¬ Under link w.tables root 3 (physToVirt (base + pageSize * k))) →
      ¬ MapsOnePage w.tables (vmmMapPage ⟨w.tables, pmm⟩ root virt phys flags).2.tables root virt
        phys (mapPageWrites ⟨w.tables, pmm⟩ root virt) := by
  have hinv := h.inv
  rw [← hinv.regions _ (regionOf_lt virt)]
  refine ⟨?_, ?_⟩
  · intro hnh
    exact mapsOnePage_of_not_huge (s := ⟨w.tables, pmm⟩) hinv.wf hfresh hargs hphys hnh hok
  · intro base hhuge hmem
    exact not_mapsOnePage_of_huge (s := ⟨w.tables, pmm⟩) hinv.wf hhuge hmem hok

/-- The empty hierarchy, and three pages to map the first page with. -/
theorem map_page_exact_first :
    let root := 0xFFFF800000100000
    let s : Mm := ⟨fun _ _ => 0, [0xFFFF800000101000, 0xFFFF800000102000, 0xFFFF800000103000]⟩
    MapsOnePage s.tables (vmmMapPage s root 0x1000 0x5000 3).2.tables root 0x1000 0x5000
      (mapPageWrites s root 0x1000) := by
  intro root s
  have hbuilt : Built root ⟨fun _ _ => 0, fun _ => .empty⟩ :=
    ⟨fun _ _ => 0, [], fun _ _ => Nat.two_pow_pos 64, fun _ => rfl, trivial, rfl⟩
  have hfresh : Fresh ⟨fun _ _ => 0, s.pmm⟩ root := Fresh.zeroed (by decide) (by decide)
  exact (map_page_exact hbuilt ⟨by decide, by decide, by decide⟩ (by decide) hfresh
    (by decide +kernel)).1 fun base => Region.noConfusion

/-- **A page mapped into a huge page**: the call succeeds, the page is
translated as before, and the first frame of the huge page is written. -/
theorem page_in_huge_page :
    let root := 0xFFFF800000100000
    let s : Mm := ⟨(call (fun _ _ => 0) root
      (.mapHugePage 0x200000 0x40000000 3 [0xFFFF800000101000, 0xFFFF800000102000])).2.tables, []⟩
    let after := (vmmMapPage s root 0x200000 0x5000 3).2.tables
    (vmmMapPage s root 0x200000 0x5000 3).1 = true ∧
      vmmGetPhys after root 0x200000 = 0x40000000 ∧
      physToVirt 0x40000000 ∈ mapPageWrites s root 0x200000 ∧
      after (physToVirt 0x40000000) 0 = 0x5003 ∧
      ¬ MapsOnePage s.tables after root 0x200000 0x5000 (mapPageWrites s root 0x200000) := by
  refine ⟨by decide +kernel, by decide +kernel, by decide +kernel, by decide +kernel, ?_⟩
  rintro ⟨hmapped, -, -, -⟩
  have hphys := hmapped 0x200000 rfl
  exact absurd hphys (by decide +kernel)

end Vmm

end Kos
