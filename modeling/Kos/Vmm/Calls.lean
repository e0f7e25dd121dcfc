import Kos.Vmm.MapPage
/-!
# Vmm — what a call leaves alone

A call writes to tables of the hierarchy and to pages the allocator
answered, and to nothing else. In the PML4 it touches one entry, and
only if that was empty. `Stays` says so, and composes over the steps of
a call and over the calls of a run. A call fails exactly where the
allocator answers `NULL` for a table that is missing, and with this the
tables refine the address space in every run.

The entry by which a PML4 shows itself to itself makes the hierarchy no
tree. It is in a slot of its own, so the calls for other slots neither
read nor write it, and can be followed as if it were not there.
-/

namespace Kos

namespace Vmm

open Radix

variable {tables : Tables ℕ} {s s' s'' : Mm} {root : ℕ} {p : List ℕ}
  {t i j e e' f slot virt phys flags : ℕ}

/-- **What steps on a hierarchy leave alone**: new tables come from the
allocator, what is no table keeps its contents, and in the root at most
one entry is filled in. -/
structure Stays (root slot : ℕ) (s s' : Mm) : Prop where
  under : ∀ f, Under link s'.tables root 3 f → Under link s.tables root 3 f ∨ f ∈ s.pmm
  outside : ∀ f, ¬ Under link s.tables root 3 f → f ∉ s.pmm → s'.tables f = s.tables f
  pmm : ∀ a ∈ s'.pmm, a ∈ s.pmm
  fresh : Fresh s root → Fresh s' root
  entry : ∀ i, i ≠ slot ∨ isPresent (s.tables root i) = true → s'.tables root i = s.tables root i

theorem Stays.refl (root slot : ℕ) (s : Mm) : Stays root slot s s :=
  ⟨fun _ h => Or.inl h, fun _ _ _ => rfl, fun _ h => h, fun h => h, fun _ _ => rfl⟩

theorem Stays.trans (h : Stays root slot s s') (h' : Stays root slot s' s'') :
    Stays root slot s s'' := by
  refine ⟨fun f hf => ?_, fun f hf hp => ?_, fun a ha => h.pmm a (h'.pmm a ha),
    fun hf => h'.fresh (h.fresh hf), fun i hi => ?_⟩
  · rcases h'.under f hf with hf | hf
    · exact h.under f hf
    · exact Or.inr (h.pmm f hf)
  · have hf' : ¬ Under link s'.tables root 3 f := fun hc => (h.under f hc).elim hf hp
    rw [h'.outside f hf' fun hc => hp (h.pmm f hc), h.outside f hf hp]
  · have hfirst := h.entry i hi
    rw [h'.entry i (by rw [hfirst]; exact hi), hfirst]

/-- The root is a table. -/
theorem under_root (tables : Tables ℕ) (root : ℕ) : Under link tables root 3 root :=
  ⟨[], Nat.zero_le 3, rfl⟩

/-- A table that is reached by a step is not the root. -/
theorem Wf.ne_root (h : Wf tables root) (ht : walk link tables root p = some t)
    (hne : p ≠ []) (hp : p.length ≤ 3) : t ≠ root := by
  rintro rfl
  exact hne (h.tree p [] t hp (Nat.zero_le 3) ht rfl)

theorem Wf.table_ne_zero (h : Wf tables root) (ht : walk link tables root p = some t)
    (hne : p ≠ []) (hp : p.length ≤ 3) : t ≠ 0 :=
  h.ne_zero p t hne hp ht

/-! ## Steps -/

/-- **Opening a table.** -/
theorem getOrCreateTable_stays (h : Wf s.tables root) (hf : Fresh s root) (hp : p.length ≤ 2)
    (ht : walk link s.tables root p = some t) (hslot : p = [] → i = slot) :
    Stays root slot s (getOrCreateTable s t i (ptPresent ||| ptWritable)).2 := by
  obtain ⟨-, hr⟩ | ⟨-, hr⟩ | ⟨new, rest, hold, hn, hpmm, hr⟩ := getOrCreateTable_cases s t i
  · rw [hr]
    exact Stays.refl root slot s
  · rw [hr]
    exact ⟨fun _ h => Or.inl h, fun _ _ _ => rfl, fun a ha => List.mem_of_mem_tail ha,
      fun _ => (Kept.exhausted h hf).fresh, fun _ _ => rfl⟩
  · have hmem : new ∈ s.pmm := by
      rw [hpmm]
      exact List.mem_cons_self
    have hnew := hf.unused new hmem hn
    rw [hr]
    refine ⟨?_, ?_, ?_, fun _ => ?_, ?_⟩
    · rintro f ⟨q, hq, hw⟩
      change walk link (linkNew s.tables t i (linkEntry new) new 0) root q = some f at hw
      rw [h.walk_link ht hold (hf.page new hmem hn) hnew hp hq] at hw
      split at hw
      · cases hw
        exact Or.inr hmem
      · exact Or.inl ⟨q, hq, hw⟩
    · intro f hfu hfp
      have hft : f ≠ t := by
        rintro rfl
        exact hfu ⟨p, by omega, ht⟩
      have hfn : f ≠ new := by
        rintro rfl
        exact hfp hmem
      exact (set_row_of_ne hft).trans (Function.update_of_ne hfn ..)
    · intro a ha
      rw [hpmm]
      exact List.mem_cons_of_mem new ha
    · obtain ⟨tables, pmm⟩ := s
      obtain rfl : pmm = new :: rest := hpmm
      exact hf.linkNew h hn hp ht hold
    · intro j hj
      refine linkNew_of_under hnew (under_root s.tables root) fun hc => ?_
      obtain ⟨rfl, rfl⟩ := hc
      -- the root is written in the slot, where its entry was empty
      have hnil : p = [] := h.tree p [] root (by omega) (Nat.zero_le 3) ht rfl
      rcases hj with hj | hj
      · exact hj (hslot hnil)
      · rw [hold] at hj
        cases hj

/-- **Writing an entry below the root.** -/
theorem Wf.set_stays (h : Wf s.tables root) (hp : p.length ≤ 3) (hne : p ≠ [])
    (ht : walk link s.tables root p = some t)
    (hwalk : ∀ q u, q.length ≤ 3 → walk link (set s.tables t i e) root q = some u →
      walk link s.tables root q = some u)
    (htables : s'.tables = set s.tables t i e) (hpmm : s'.pmm = s.pmm) : Stays root slot s s' := by
  have hroot : root ≠ t := (h.ne_root ht hne hp).symm
  -- the write takes tables out of the hierarchy at most
  have hunder : ∀ f, Under link s'.tables root 3 f → Under link s.tables root 3 f := by
    rintro f ⟨q, hq, hw⟩
    rw [htables] at hw
    exact ⟨q, hq, hwalk q f hq hw⟩
  refine ⟨fun f hf => Or.inl (hunder f hf), ?_, fun a ha => hpmm ▸ ha, ?_, ?_⟩
  · intro f hfu _
    rw [htables]
    refine set_row_of_ne ?_
    rintro rfl
    exact hfu ⟨p, hp, ht⟩
  · rintro ⟨hpage, hunused, honce⟩
    rw [← hpmm] at hpage hunused honce
    exact ⟨hpage, fun a ha hne hu => hunused a ha hne (hunder a hu), honce⟩
  · intro j _
    rw [htables]
    exact set_of_ne fun hc => hroot hc.1

/-- The last write of a call, to a page table. -/
theorem Wf.set_leaf_stays (h : Wf s.tables root) (hp : p.length = 3)
    (ht : walk link s.tables root p = some t) (htables : s'.tables = set s.tables t i e)
    (hpmm : s'.pmm = s.pmm) : Stays root slot s s' := by
  refine h.set_stays hp.le ?_ ht (fun q u hq hw => ?_) htables hpmm
  · rintro rfl
    cases hp
  · rwa [h.tree.walk_set_leaf hp ht hq] at hw

/-- The last write of a call, of a leaf to a directory. -/
theorem Wf.set_dir_stays (h : Wf s.tables root) (hp : p.length = 2)
    (ht : walk link s.tables root p = some t) (hl : link e = none)
    (htables : s'.tables = set s.tables t i e) (hpmm : s'.pmm = s.pmm) : Stays root slot s s' := by
  refine h.set_stays (by omega) ?_ ht (fun q u hq hw => ?_) htables hpmm
  · rintro rfl
    cases hp
  · exact (h.tree.walk_cut (by omega) ht hl hq hw).1

/-! ## Calls -/

/-- Clearing an entry before it is written takes no page. -/
theorem put_cleared_pmm (s : Mm) (t i e : ℕ) :
    ((if isPresent (s.tables t i) then s.put t i 0 else s).put t i e).pmm = s.pmm := by
  split <;> rfl

/-- The opening of the two upper tables. -/
theorem open_directory_stays (h : Wf s.tables root) (hf : Fresh s root) (virt : ℕ) :
    let r := getOrCreateTable s root (pml4Index virt) (ptPresent ||| ptWritable)
    let r' := getOrCreateTable r.2 r.1 (pdptIndex virt) (ptPresent ||| ptWritable)
    Stays root (pml4Index virt) s r.2 ∧ (r.1 ≠ 0 → Stays root (pml4Index virt) s r'.2) := by
  intro r r'
  obtain ⟨hkept, hwalk⟩ := getOrCreateTable_upper (p := []) (i := pml4Index virt) h hf
    (Nat.zero_le 1) rfl
  have hfirst : Stays root (pml4Index virt) s r.2 :=
    getOrCreateTable_stays (p := []) h hf (Nat.zero_le 2) rfl fun _ => rfl
  refine ⟨hfirst, fun hne => hfirst.trans ?_⟩
  exact getOrCreateTable_stays (p := [pml4Index virt]) hkept.wf hkept.fresh (Nat.le_succ 1)
    (hwalk hne) fun hc => absurd hc (List.cons_ne_nil _ _)

/-- **What `vmm_map_page` leaves alone**, where its region is no huge page. -/
theorem vmmMapPage_stays (h : Wf s.tables root) (hf : Fresh s root)
    (hnh : ∀ base, absRegion s.tables root (regionOf virt) ≠ .huge base) :
    Stays root (pml4Index virt) s (vmmMapPage s root virt phys flags).2 := by
  obtain ⟨-, hdir⟩ := open_directory h hf virt
  obtain ⟨hfirst, hsecond⟩ := open_directory_stays h hf virt
  unfold vmmMapPage
  simp only
  generalize getOrCreateTable s root (pml4Index virt) (ptPresent ||| ptWritable) = r at *
  split
  · exact hfirst
  · rename_i hne
    obtain ⟨hkept, hwalk⟩ := hdir hne
    have hpd := hsecond hne
    generalize getOrCreateTable r.2 r.1 (pdptIndex virt) (ptPresent ||| ptWritable) = r' at *
    split
    · exact hpd
    · rename_i hne'
      -- the region is no huge page, so the third table is one below the directory
      obtain ⟨hwf, -, hok⟩ := hkept.open_table hnh (hwalk hne')
      have hpt : Stays root (pml4Index virt) s
          (getOrCreateTable r'.2 r'.1 (pdIndex virt) (ptPresent ||| ptWritable)).2 :=
        hpd.trans (getOrCreateTable_stays (p := dirPath (regionOf virt)) hkept.wf hkept.fresh
          (Nat.le_refl 2) (hwalk hne') fun hc => absurd hc (List.cons_ne_nil _ _))
      generalize getOrCreateTable r'.2 r'.1 (pdIndex virt) (ptPresent ||| ptWritable) = r'' at *
      split
      · exact hpt
      · rename_i hz
        exact hpt.trans (hwf.set_leaf_stays rfl (hok hz).1 (put_cleared _ _ _ _)
          (put_cleared_pmm _ _ _ _))

/-- **What `vmm_map_huge_page` leaves alone.** -/
theorem vmmMapHugePage_stays (h : Wf s.tables root) (hf : Fresh s root) :
    Stays root (pml4Index virt) s (vmmMapHugePage s root virt phys flags).2 := by
  obtain ⟨-, hdir⟩ := open_directory h hf virt
  obtain ⟨hfirst, hsecond⟩ := open_directory_stays h hf virt
  unfold vmmMapHugePage
  simp only
  generalize getOrCreateTable s root (pml4Index virt) (ptPresent ||| ptWritable) = r at *
  split
  · exact hfirst
  · rename_i hne
    obtain ⟨hkept, hwalk⟩ := hdir hne
    have hpd := hsecond hne
    generalize getOrCreateTable r.2 r.1 (pdptIndex virt) (ptPresent ||| ptWritable) = r' at *
    split
    · exact hpd
    · rename_i hne'
      exact hpd.trans (hkept.wf.set_dir_stays rfl (hwalk hne') (link_hugeEntry phys flags)
        (put_cleared _ _ _ _) (put_cleared_pmm _ _ _ _))

/-- **What `vmm_unmap_page` leaves alone.** -/
theorem vmmUnmapPage_stays (h : Wf s.tables root) (virt : ℕ) :
    Stays root slot s (vmmUnmapPage s root virt) := by
  have hdir := h.walk_dir virt
  unfold vmmUnmapPage
  split
  · exact Stays.refl root slot s
  · rename_i hc
    rw [if_neg hc] at hdir
    simp only at hdir ⊢
    split
    · exact Stays.refl root slot s
    · rename_i hc'
      rw [if_neg hc'] at hdir
      generalize tableOf (s.tables (tableOf (s.tables root (pml4Index virt))) (pdptIndex virt)) = pd
        at hdir ⊢
      split
      · exact Stays.refl root slot s
      · rename_i hpd
        split
        · exact h.set_dir_stays (i := pdIndex virt) (dirPath_length _) hdir link_zero rfl rfl
        · rename_i hh
          have hpt : walk link s.tables root (dirPath (regionOf virt) ++ [pdIndex virt]) =
              some (tableOf (s.tables pd (pdIndex virt))) := by
            rw [walk_snoc, hdir, Option.bind_some,
              link_of_present (by simpa using hpd) (by simpa using hh)]
          exact h.set_leaf_stays (i := ptIndex virt) (e := 0) rfl hpt rfl rfl

/-! ## The tables on the path of an address -/

section Path

variable (h : Wf tables root) (hpml4 : isPresent (tables root (pml4Index virt)) = true)
include h hpml4

/-- The first table on the path of an address, as the code finds it. -/
theorem Wf.pdpt_of_present :
    walk link tables root [pml4Index virt] = some (tableOf (tables root (pml4Index virt))) := by
  rw [walk, h.link_upper (p := []) (Nat.zero_le 1) rfl, hpml4]
  rfl

theorem Wf.pdpt_ne_root : tableOf (tables root (pml4Index virt)) ≠ root :=
  h.ne_root (h.pdpt_of_present hpml4) (List.cons_ne_nil _ _) (Nat.le_add_left 1 2)

variable {pdpt pd : ℕ} (hpdpt : tableOf (tables root (pml4Index virt)) = pdpt)
  (hpres : isPresent (tables pdpt (pdptIndex virt)) = true)
  (hpd : tableOf (tables pdpt (pdptIndex virt)) = pd)
include hpdpt hpres hpd

/-- The directory of an address, as the code finds it. -/
theorem Wf.dir_of_present : walk link tables root (dirPath (regionOf virt)) = some pd := by
  have hdir := h.walk_dir virt
  simp only [hpml4, hpdpt, hpres, hpd, Bool.not_true, Bool.false_eq_true, if_false] at hdir
  exact hdir

theorem Wf.pd_ne_root : pd ≠ root :=
  h.ne_root (h.dir_of_present hpml4 hpdpt hpres hpd) (List.cons_ne_nil _ _) (Nat.le_succ 2)

/-- The page table of an address, as the code finds it. -/
theorem Wf.pt_of_present (hpres' : isPresent (tables pd (pdIndex virt)) = true)
    (hhuge : isHuge (tables pd (pdIndex virt)) = false) :
    walk link tables root (dirPath (regionOf virt) ++ [pdIndex virt]) =
      some (tableOf (tables pd (pdIndex virt))) := by
  rw [walk_snoc, h.dir_of_present hpml4 hpdpt hpres hpd, Option.bind_some,
    link_of_present hpres' hhuge]

theorem Wf.pt_ne_root (hpres' : isPresent (tables pd (pdIndex virt)) = true)
    (hhuge : isHuge (tables pd (pdIndex virt)) = false) :
    tableOf (tables pd (pdIndex virt)) ≠ root :=
  h.ne_root (h.pt_of_present hpml4 hpdpt hpres hpd hpres' hhuge) (List.cons_ne_nil _ _)
    (Nat.le_refl 3)

end Path

/-! ## When a mapping succeeds -/

/-- The allocator's next answers are pages. -/
def enough : ℕ → List ℕ → Bool
  | 0, _ => true
  | _ + 1, [] => false
  | n + 1, a :: rest => a != 0 && enough n rest

/-- **The tables that are missing on the path of an address.** -/
def missingTables (tables : Tables ℕ) (root virt : ℕ) : ℕ :=
  if !isPresent (tables root (pml4Index virt)) then 3
  else
    let pdpt := tableOf (tables root (pml4Index virt))
    if !isPresent (tables pdpt (pdptIndex virt)) then 2
    else
      let pd := tableOf (tables pdpt (pdptIndex virt))
      if !isPresent (tables pd (pdIndex virt)) then 1 else 0

/-- A missing table takes one answer. -/
theorem getOrCreateTable_missing (hold : isPresent (s.tables t i) = false) (n : ℕ) :
    enough (n + 1) s.pmm = true ↔ (getOrCreateTable s t i flags).1 ≠ 0 ∧
      enough n (getOrCreateTable s t i flags).2.pmm = true := by
  obtain ⟨tables, pmm⟩ := s
  have hold : isPresent (tables t i) = false := hold
  cases pmm with
  | nil => simp [getOrCreateTable, hold, pmmAllocPage, enough]
  | cons a rest =>
    rcases Nat.eq_zero_or_pos a with rfl | ha
    · simp [getOrCreateTable, hold, pmmAllocPage, enough]
    · simp [getOrCreateTable, hold, pmmAllocPage, enough, ha.ne', Mm.put]

/-- A table that was missing is empty. -/
theorem getOrCreateTable_empty (hold : isPresent (s.tables t i) = false)
    (hne : (getOrCreateTable s t i flags).1 ≠ 0) (ht : ∀ a ∈ s.pmm, a ≠ 0 → a ≠ t) (j : ℕ) :
    isPresent ((getOrCreateTable s t i flags).2.tables (getOrCreateTable s t i flags).1 j) =
        false ∧
      s.pmm = (getOrCreateTable s t i flags).1 :: (getOrCreateTable s t i flags).2.pmm := by
  obtain ⟨tables, pmm⟩ := s
  have hold : isPresent (tables t i) = false := hold
  cases pmm with
  | nil => simp [getOrCreateTable, hold, pmmAllocPage] at hne
  | cons a rest =>
    -- an answer of 0 is a failure for the caller
    rcases Nat.eq_zero_or_pos a with rfl | ha
    · simp [getOrCreateTable, hold, pmmAllocPage] at hne
    · have hta : a ≠ t := ht a List.mem_cons_self ha.ne'
      have hr : getOrCreateTable ⟨tables, a :: rest⟩ t i flags =
          (a, ⟨set (Function.update tables a fun _ => 0) t i (virtToPhys a ||| flags), rest⟩) := by
        simp [getOrCreateTable, hold, pmmAllocPage, ha.ne', Mm.put]
      rw [hr]
      refine ⟨?_, rfl⟩
      simp only
      rw [set_of_ne fun hc => hta hc.1, Function.update_self]
      rfl

theorem getOrCreateTable_present (hpres : isPresent (s.tables t i) = true) :
    getOrCreateTable s t i flags = (tableOf (s.tables t i), s) := by
  rw [getOrCreateTable, if_pos hpres]

/-- A page that was answered is not answered again. -/
theorem Fresh.head_ne {a : ℕ} {rest : List ℕ} (hf : Fresh s root) (hpmm : s.pmm = a :: rest)
    (ha : a ≠ 0) : ∀ b ∈ rest, b ≠ 0 → b ≠ a := by
  intro b hmem _
  have honce := hf.once
  rw [hpmm, List.pairwise_cons] at honce
  exact (honce.1 b hmem ha).symm

/-- A table of the hierarchy is not answered. -/
theorem Fresh.ne_table (hf : Fresh s root) (ht : Under link s.tables root 3 t) :
    ∀ a ∈ s.pmm, a ≠ 0 → a ≠ t := by
  rintro a hmem hne rfl
  exact hf.unused a hmem hne ht

theorem vmmMapPage_ok :
    (vmmMapPage s root virt phys flags).1 = true ↔
      let r := getOrCreateTable s root (pml4Index virt) (ptPresent ||| ptWritable)
      let r' := getOrCreateTable r.2 r.1 (pdptIndex virt) (ptPresent ||| ptWritable)
      r.1 ≠ 0 ∧ r'.1 ≠ 0 ∧
        (getOrCreateTable r'.2 r'.1 (pdIndex virt) (ptPresent ||| ptWritable)).1 ≠ 0 := by
  unfold vmmMapPage
  simp only
  split
  · rename_i h₁
    simp [h₁]
  · rename_i h₁
    split
    · rename_i h₂
      simp [h₂]
    · rename_i h₂
      split
      · rename_i h₃
        simp [h₃]
      · rename_i h₃
        exact ⟨fun _ => ⟨h₁, h₂, h₃⟩, fun _ => rfl⟩

/-- **`vmm_map_page` succeeds exactly if there are pages for the missing
tables**, where its region is no huge page. -/
theorem vmmMapPage_ok_iff (h : Wf s.tables root) (hf : Fresh s root)
    (hnh : ∀ base, absRegion s.tables root (regionOf virt) ≠ .huge base) :
    (vmmMapPage s root virt phys flags).1 = true ↔
      enough (missingTables s.tables root virt) s.pmm = true := by
  rw [vmmMapPage_ok]
  unfold missingTables
  simp only
  cases hpml4 : isPresent (s.tables root (pml4Index virt)) with
  | false =>
    -- all three tables are new, and each is empty
    rw [Bool.not_false, if_pos rfl, getOrCreateTable_missing hpml4 2]
    refine and_congr_right fun hne => ?_
    obtain ⟨hempty, hpmm⟩ :=
      getOrCreateTable_empty hpml4 hne (hf.ne_table (under_root _ _)) (pdptIndex virt)
    have hnot := hf.head_ne hpmm hne
    rw [getOrCreateTable_missing hempty 1]
    refine and_congr_right fun hne' => ?_
    obtain ⟨hempty', -⟩ := getOrCreateTable_empty hempty hne' hnot (pdIndex virt)
    rw [getOrCreateTable_missing hempty' 0]
    exact ⟨fun hne'' => ⟨hne'', rfl⟩, fun hne'' => hne''.1⟩
  | true =>
    have hwalk := h.pdpt_of_present hpml4
    have hne := h.table_ne_zero hwalk (List.cons_ne_nil _ _) (Nat.le_add_left 1 2)
    have hnot := hf.ne_table ⟨[pml4Index virt], Nat.le_add_left 1 2, hwalk⟩
    rw [getOrCreateTable_present hpml4]
    generalize hpdpt : tableOf (s.tables root (pml4Index virt)) = pdpt at *
    simp only [ne_eq, hne, not_false_eq_true, true_and, Bool.not_true, Bool.false_eq_true, if_false]
    cases hpres : isPresent (s.tables pdpt (pdptIndex virt)) with
    | false =>
      rw [Bool.not_false, if_pos rfl, getOrCreateTable_missing hpres 1]
      refine and_congr_right fun hne' => ?_
      obtain ⟨hempty, -⟩ := getOrCreateTable_empty hpres hne' hnot (pdIndex virt)
      rw [getOrCreateTable_missing hempty 0]
      exact ⟨fun hne'' => ⟨hne'', rfl⟩, fun hne'' => hne''.1⟩
    | true =>
      rw [getOrCreateTable_present hpres]
      generalize hpd : tableOf (s.tables pdpt (pdptIndex virt)) = pd
      have hdir := h.dir_of_present hpml4 hpdpt hpres hpd
      have hne' := h.table_ne_zero hdir (List.cons_ne_nil _ _) (Nat.le_succ 2)
      simp only [hne', not_false_eq_true, true_and, Bool.not_true, Bool.false_eq_true, if_false]
      cases hpres' : isPresent (s.tables pd (pdIndex virt)) with
      | false =>
        rw [Bool.not_false, if_pos rfl, getOrCreateTable_missing hpres' 0]
        exact ⟨fun hne'' => ⟨hne'', rfl⟩, fun hne'' => hne''.1⟩
      | true =>
        have hhuge : isHuge (s.tables pd (pdIndex virt)) = false := by
          by_contra hc
          rw [Bool.not_eq_false] at hc
          refine hnh (roundTo hugePageSize (s.tables pd (pdIndex virt))) ?_
          rw [absRegion, hdir]
          simp [← pdIndex_eq, entryRegion, hpres', hc]
        have hpt := h.pt_of_present hpml4 hpdpt hpres hpd hpres' hhuge
        rw [getOrCreateTable_present hpres']
        have hne'' := h.table_ne_zero hpt (List.cons_ne_nil _ _) (Nat.le_refl 3)
        exact ⟨fun _ => rfl, fun _ => hne''⟩

/-- The tables above the entry of a huge page that are missing. -/
def missingDirs (tables : Tables ℕ) (root virt : ℕ) : ℕ :=
  if !isPresent (tables root (pml4Index virt)) then 2
  else
    let pdpt := tableOf (tables root (pml4Index virt))
    if !isPresent (tables pdpt (pdptIndex virt)) then 1 else 0

theorem vmmMapHugePage_ok :
    (vmmMapHugePage s root virt phys flags).1 = true ↔
      let r := getOrCreateTable s root (pml4Index virt) (ptPresent ||| ptWritable)
      r.1 ≠ 0 ∧ (getOrCreateTable r.2 r.1 (pdptIndex virt) (ptPresent ||| ptWritable)).1 ≠ 0 := by
  unfold vmmMapHugePage
  simp only
  split
  · rename_i h₁
    simp [h₁]
  · rename_i h₁
    split
    · rename_i h₂
      simp [h₂]
    · rename_i h₂
      exact ⟨fun _ => ⟨h₁, h₂⟩, fun _ => rfl⟩

/-- **`vmm_map_huge_page` succeeds exactly if there are pages for the
missing tables**, whatever its region is. -/
theorem vmmMapHugePage_ok_iff (h : Wf s.tables root) (hf : Fresh s root) :
    (vmmMapHugePage s root virt phys flags).1 = true ↔
      enough (missingDirs s.tables root virt) s.pmm = true := by
  rw [vmmMapHugePage_ok]
  unfold missingDirs
  simp only
  cases hpml4 : isPresent (s.tables root (pml4Index virt)) with
  | false =>
    rw [Bool.not_false, if_pos rfl, getOrCreateTable_missing hpml4 1]
    refine and_congr_right fun hne => ?_
    obtain ⟨hempty, -⟩ :=
      getOrCreateTable_empty hpml4 hne (hf.ne_table (under_root _ _)) (pdptIndex virt)
    rw [getOrCreateTable_missing hempty 0]
    exact ⟨fun hne' => ⟨hne', rfl⟩, fun hne' => hne'.1⟩
  | true =>
    have hwalk := h.pdpt_of_present hpml4
    have hne := h.table_ne_zero hwalk (List.cons_ne_nil _ _) (Nat.le_add_left 1 2)
    rw [getOrCreateTable_present hpml4]
    generalize hpdpt : tableOf (s.tables root (pml4Index virt)) = pdpt at *
    simp only [ne_eq, hne, not_false_eq_true, true_and, Bool.not_true, Bool.false_eq_true, if_false]
    cases hpres : isPresent (s.tables pdpt (pdptIndex virt)) with
    | false =>
      rw [Bool.not_false, if_pos rfl, getOrCreateTable_missing hpres 0]
      exact ⟨fun hne' => ⟨hne', rfl⟩, fun hne' => hne'.1⟩
    | true =>
      rw [getOrCreateTable_present hpres]
      have hdir := h.dir_of_present hpml4 hpdpt hpres rfl
      have hne' := h.table_ne_zero hdir (List.cons_ne_nil _ _) (Nat.le_succ 2)
      exact ⟨fun _ => rfl, fun _ => hne'⟩

/-! ## The address space, call by call -/

/-- **There is a page for every table a call misses.** -/
def Op.Served (tables : Tables ℕ) (root : ℕ) : Op → Prop
  | .mapPage virt _ _ pmm => enough (missingTables tables root virt) pmm = true
  | .mapHugePage virt _ _ pmm => enough (missingDirs tables root virt) pmm = true
  | .unmapPage _ => True

instance Op.Served.decidable (tables : Tables ℕ) (root : ℕ) :
    ∀ op : Op, Decidable (op.Served tables root)
  | .mapPage _ _ _ _ => inferInstanceAs (Decidable (_ = true))
  | .mapHugePage _ _ _ _ => inferInstanceAs (Decidable (_ = true))
  | .unmapPage _ => isTrue trivial

/-- **A call fails only where the allocator has no page for a table.** -/
theorem World.Inv.call_ok_iff {w : World} {op : Op} (h : w.Inv root) (hop : Permitted root w op) :
    (call w.tables root op).1 = true ↔ op.Served w.tables root := by
  cases op with
  | mapPage virt phys flags pmm =>
    refine vmmMapPage_ok_iff (s := ⟨w.tables, pmm⟩) h.wf hop.2.1 fun base => ?_
    rw [h.regions _ (regionOf_lt virt)]
    exact hop.2.2 base
  | mapHugePage virt phys flags pmm => exact vmmMapHugePage_ok_iff (s := ⟨w.tables, pmm⟩) h.wf hop.2
  | unmapPage virt => exact ⟨fun _ => trivial, fun _ => rfl⟩

/-- **`vmm_get_phys` is the translation of the address space.** In every
run from a zeroed PML4, whatever the page allocator answered, each
address is translated as the calls that succeeded say; and of the calls
that can follow, those fail for which the allocator answers `NULL` in
place of a table that is missing, and no others. -/
theorem vmm_translates (hword : ∀ t i, tables t i < 2 ^ 64) (hzero : ∀ i, tables root i = 0)
    {ops : List Op}
    (h : Allowed (World.step root) (Permitted root) ⟨tables, fun _ => .empty⟩ ops) :
    let w := runFrom (World.step root) ⟨tables, fun _ => .empty⟩ ops
    (∀ virt, vmmGetPhys w.tables root virt = w.space.translate virt) ∧
      ∀ op, Permitted root w op → ((call w.tables root op).1 = true ↔ op.Served w.tables root) := by
  intro w
  have hinv : w.Inv root :=
    h.invariant (P := World.Inv root) (fun w op => World.Inv.step) (World.Inv.zeroed hword hzero)
  refine ⟨fun virt => ?_, fun op hop => hinv.call_ok_iff hop⟩
  rw [hinv.wf.vmmGetPhys_eq, hinv.regions _ (regionOf_lt virt), Space.translate]

/-- A page and a huge page of one directory, then the page unmapped and
mapped again to another frame; a page in another directory has no table. -/
theorem vmm_translates_four_calls :
    let root := 0xFFFF800000100000
    let ops : List Op :=
      [.mapPage 0x1000 0x5000 3 [0xFFFF800000101000, 0xFFFF800000102000, 0xFFFF800000103000],
        .mapHugePage 0x200000 0x40000000 3 [], .unmapPage 0x1000, .mapPage 0x1000 0x7000 3 []]
    let w := runFrom (World.step root) ⟨fun _ _ => 0, fun _ => .empty⟩ ops
    (vmmGetPhys w.tables root 0x1234 = w.space.translate 0x1234 ∧
      w.space.translate 0x1234 = 0x7234 ∧ w.space.translate 0x234567 = 0x40034567) ∧
      (call w.tables root (.mapPage 0x40000000 0x9000 3 [])).1 = false := by
  intro root ops w
  have hargs : ∀ phys, phys < 2 ^ 52 → LeafArgs phys 3 := fun _ h => ⟨h, by decide, by decide⟩
  have hnone : ∀ tables : Tables ℕ, Fresh ⟨tables, []⟩ root := fun _ =>
    ⟨fun a ha => absurd ha List.not_mem_nil, fun a ha => absurd ha List.not_mem_nil,
      List.Pairwise.nil⟩
  have hrun : Allowed (World.step 0xFFFF800000100000) (Permitted 0xFFFF800000100000)
      ⟨fun _ _ => 0, fun _ => .empty⟩ ops := by
    refine ⟨⟨hargs _ (by decide), Fresh.zeroed (by decide) (by decide), fun base => ?_⟩,
      ⟨hargs _ (by decide), hnone _⟩, trivial, ⟨hargs _ (by decide), hnone _, fun base => ?_⟩,
      trivial⟩
    · exact fun hc => Region.noConfusion hc
    · exact fun hc => Region.noConfusion hc
  obtain ⟨htranslates, hfails⟩ := vmm_translates (fun _ _ => Nat.two_pow_pos 64) (fun _ => rfl) hrun
  refine ⟨⟨htranslates _, by decide +kernel, by decide +kernel⟩, ?_⟩
  have hempty : (w.space (regionOf 0x40000000)).translate 0x40000001 = 0 := by decide +kernel
  have hop : Permitted root w (.mapPage 0x40000000 0x9000 3 []) := by
    refine ⟨hargs _ (by decide), hnone _, fun base hc => ?_⟩
    rw [hc] at hempty
    exact absurd hempty (Nat.succ_ne_zero base)
  rw [← Bool.not_eq_true, hfails _ hop]
  decide +kernel

/-! ## Translations after a call -/

/-- A region that is no huge page, as a table. -/
theorem Region.translate_frames {r : Region} {a : ℕ} (hnh : ∀ base, r ≠ .huge base) :
    (Region.table r.frames).translate a = r.translate a := by
  cases r with
  | empty => rfl
  | huge base => exact absurd rfl (hnh base)
  | table frames => rfl

theorem Region.translate_update {frames : ℕ → Option ℕ} {i a : ℕ} {f : Option ℕ} :
    (Region.table (Function.update frames i f)).translate a =
      if frameOf a = i then f.elim 0 (· + a % pageSize) else (Region.table frames).translate a := by
  by_cases hi : frameOf a = i
  · rw [if_pos hi]
    simp only [Region.translate, Function.update_apply, if_pos hi]
    cases f <;> rfl
  · rw [if_neg hi]
    simp only [Region.translate, Function.update_apply, if_neg hi]

theorem Region.translate_unmapPage {r : Region} {i a : ℕ} :
    (r.unmapPage i).translate a = 0 ∨ (r.unmapPage i).translate a = r.translate a := by
  cases r with
  | empty => exact Or.inl rfl
  | huge base => exact Or.inl rfl
  | table frames =>
    rw [Region.unmapPage, Region.translate_update]
    split
    · exact Or.inl rfl
    · exact Or.inr rfl

/-- An entry of 64 bits. -/
theorem pageEntry_lt (phys : ℕ) (hflags : flags < 2 ^ 64) :
    phys &&& pageMask ||| flags < 2 ^ 64 :=
  Nat.or_lt_two_pow (Nat.and_lt_two_pow _ (by decide)) hflags

/-- **After `vmm_map_page`** the page is what the entry says, and the other
pages are what they were. -/
theorem vmmMapPage_translate (h : Wf s.tables root) (hf : Fresh s root)
    (hlt : (phys &&& pageMask) ||| flags < 2 ^ 64)
    (hnh : ∀ base, absRegion s.tables root (regionOf virt) ≠ .huge base) (a : ℕ) :
    vmmGetPhys (vmmMapPage s root virt phys flags).2.tables root a =
      if (vmmMapPage s root virt phys flags).1 = true ∧ pageOf a = pageOf virt then
        (leafFrame ((phys &&& pageMask) ||| flags)).elim 0 (· + a % pageSize)
      else vmmGetPhys s.tables root a := by
  obtain ⟨hwf, hregions⟩ := vmmMapPage_regions h hf hlt hnh
  rw [hwf.vmmGetPhys_eq, h.vmmGetPhys_eq, hregions _ (regionOf_lt a)]
  by_cases hregion : (vmmMapPage s root virt phys flags).1 = true ∧ regionOf a = regionOf virt
  · rw [if_pos hregion, Region.translate_update, Region.translate_frames hnh]
    by_cases hframe : frameOf a = frameOf virt
    · rw [if_pos hframe, if_pos ⟨hregion.1, pageOf_eq_iff.2 ⟨hregion.2, hframe⟩⟩]
    · rw [if_neg hframe, if_neg fun hc => hframe (pageOf_eq_iff.1 hc.2).2, hregion.2]
  · rw [if_neg hregion, if_neg fun hc => hregion ⟨hc.1, (pageOf_eq_iff.1 hc.2).1⟩]

/-- **After `vmm_unmap_page`** an address is what it was, or unmapped. -/
theorem vmmUnmapPage_translate (h : Wf s.tables root) (virt a : ℕ) :
    vmmGetPhys (vmmUnmapPage s root virt).tables root a = 0 ∨
      vmmGetPhys (vmmUnmapPage s root virt).tables root a = vmmGetPhys s.tables root a := by
  obtain ⟨hwf, hregions⟩ := vmmUnmapPage_refines h virt
  rw [hwf.vmmGetPhys_eq, h.vmmGetPhys_eq, hregions _ (regionOf_lt a)]
  simp only [Space.step, Bool.not_true, Bool.false_eq_true, if_false, Function.update_apply]
  split
  · rename_i hregion
    rw [hregion]
    exact Region.translate_unmapPage
  · exact Or.inr rfl

/-! ## An entry in a slot of its own -/

@[simp] theorem put_tables (s : Mm) (t i e : ℕ) : (s.put t i e).tables = set s.tables t i e := rfl

theorem put_comm {u : ℕ} (h : ¬ (t = u ∧ i = j)) :
    (s.put t i e).put u j e' = (s.put u j e').put t i e := by
  rw [Mm.put, Mm.put, Mm.put, Mm.put, set_comm h]

/-- Opening a table neither reads nor writes another entry. -/
theorem getOrCreateTable_put (hne : ¬ (t = root ∧ i = slot)) (hroot : root ∉ s.pmm) :
    getOrCreateTable (s.put root slot e) t i flags =
      ((getOrCreateTable s t i flags).1, (getOrCreateTable s t i flags).2.put root slot e) := by
  obtain ⟨tables, pmm⟩ := s
  simp only [getOrCreateTable, put_tables, set_of_ne hne]
  split
  · rfl
  · cases pmm with
    | nil => rfl
    | cons new rest =>
      have hnew : new ≠ root := fun hc => hroot (hc ▸ List.mem_cons_self)
      simp only [pmmAllocPage, Mm.put]
      rcases Nat.eq_zero_or_pos new with hz | hz
      · simp only [hz, if_true]
      · simp only [hz.ne', if_false]
        rw [update_set hnew, set_comm fun hc => hne ⟨hc.1.symm, hc.2.symm⟩]

/-- The opening of the two upper tables for another slot. -/
theorem open_directory_put (h : Wf s.tables root) (hf : Fresh s root) (hroot : root ∉ s.pmm)
    (hslot : pml4Index virt ≠ slot) :
    let r := getOrCreateTable s root (pml4Index virt) (ptPresent ||| ptWritable)
    let r' := getOrCreateTable r.2 r.1 (pdptIndex virt) (ptPresent ||| ptWritable)
    getOrCreateTable (s.put root slot e) root (pml4Index virt) (ptPresent ||| ptWritable) =
        (r.1, r.2.put root slot e) ∧
      (r.1 ≠ 0 →
        getOrCreateTable (r.2.put root slot e) r.1 (pdptIndex virt) (ptPresent ||| ptWritable) =
          (r'.1, r'.2.put root slot e) ∧
        root ∉ r'.2.pmm ∧ (r'.1 ≠ 0 → r'.1 ≠ root)) := by
  intro r r'
  obtain ⟨hkept, hwalk⟩ := getOrCreateTable_upper (p := []) (i := pml4Index virt) h hf
    (Nat.zero_le 1) rfl
  obtain ⟨-, hdir⟩ := open_directory h hf virt
  obtain ⟨hfirst, hsecond⟩ := open_directory_stays h hf virt
  refine ⟨getOrCreateTable_put (fun hc => hslot hc.2) hroot, fun hne => ?_⟩
  have hr : r.1 ≠ root :=
    hkept.wf.ne_root (hwalk hne) (List.cons_ne_nil _ _) (Nat.le_add_left 1 2)
  obtain ⟨hkept', hwalk'⟩ := hdir hne
  refine ⟨getOrCreateTable_put (fun hc => hr hc.1) fun hc => hroot (hfirst.pmm _ hc),
    fun hc => hroot ((hsecond hne).pmm _ hc), fun hne' => ?_⟩
  exact hkept'.wf.ne_root (hwalk' hne') (List.cons_ne_nil _ _) (Nat.le_succ 2)

/-- Replacing an entry of another table. -/
theorem replace_put (hne : t ≠ root) (entry : ℕ) :
    (if isPresent ((s.put root slot e).tables t i) then (s.put root slot e).put t i 0
      else s.put root slot e).put t i entry =
      ((if isPresent (s.tables t i) then s.put t i 0 else s).put t i entry).put root slot e := by
  have hcomm : ¬ (root = t ∧ slot = i) := fun hc => hne hc.1.symm
  rw [put_tables, set_of_ne fun hc => hne hc.1]
  split
  · rw [put_comm hcomm, put_comm hcomm]
  · rw [put_comm hcomm]

/-- **`vmm_map_page` for another slot.** -/
theorem vmmMapPage_put (h : Wf s.tables root) (hf : Fresh s root) (hroot : root ∉ s.pmm)
    (hnh : ∀ base, absRegion s.tables root (regionOf virt) ≠ .huge base)
    (hslot : pml4Index virt ≠ slot) :
    vmmMapPage (s.put root slot e) root virt phys flags =
      ((vmmMapPage s root virt phys flags).1,
        (vmmMapPage s root virt phys flags).2.put root slot e) := by
  obtain ⟨-, hdir⟩ := open_directory h hf virt
  obtain ⟨hput, hput'⟩ := open_directory_put (e := e) h hf hroot hslot
  unfold vmmMapPage
  simp only [hput]
  generalize getOrCreateTable s root (pml4Index virt) (ptPresent ||| ptWritable) = r at *
  split
  · rfl
  · rename_i hne
    obtain ⟨hkept, hwalk⟩ := hdir hne
    obtain ⟨hsecond, hnot, hr'⟩ := hput' hne
    simp only [hsecond]
    generalize getOrCreateTable r.2 r.1 (pdptIndex virt) (ptPresent ||| ptWritable) = r' at *
    split
    · rfl
    · rename_i hne'
      obtain ⟨hwf, -, hok⟩ := hkept.open_table hnh (hwalk hne')
      rw [getOrCreateTable_put (fun hc => hr' hne' hc.1) hnot]
      simp only
      generalize getOrCreateTable r'.2 r'.1 (pdIndex virt) (ptPresent ||| ptWritable) = r'' at *
      split
      · rfl
      · rename_i hz
        -- the page table is below the root, so the two writes do not meet
        have hpt : r''.1 ≠ root := hwf.ne_root (hok hz).1 (List.cons_ne_nil _ _) (Nat.le_refl 3)
        rw [replace_put hpt]

/-- **`vmm_map_huge_page` for another slot.** -/
theorem vmmMapHugePage_put (h : Wf s.tables root) (hf : Fresh s root) (hroot : root ∉ s.pmm)
    (hslot : pml4Index virt ≠ slot) :
    vmmMapHugePage (s.put root slot e) root virt phys flags =
      ((vmmMapHugePage s root virt phys flags).1,
        (vmmMapHugePage s root virt phys flags).2.put root slot e) := by
  obtain ⟨hput, hput'⟩ := open_directory_put (e := e) h hf hroot hslot
  unfold vmmMapHugePage
  simp only [hput]
  generalize getOrCreateTable s root (pml4Index virt) (ptPresent ||| ptWritable) = r at *
  split
  · rfl
  · rename_i hne
    obtain ⟨hsecond, -, hr'⟩ := hput' hne
    simp only [hsecond]
    generalize getOrCreateTable r.2 r.1 (pdptIndex virt) (ptPresent ||| ptWritable) = r' at *
    split
    · rfl
    · rename_i hne'
      rw [replace_put (hr' hne')]

/-- **`vmm_unmap_page` for another slot.** -/
theorem vmmUnmapPage_put (h : Wf s.tables root) (hslot : pml4Index virt ≠ slot) :
    vmmUnmapPage (s.put root slot e) root virt = (vmmUnmapPage s root virt).put root slot e := by
  unfold vmmUnmapPage
  rw [put_tables, set_of_ne fun hc => hslot hc.2]
  -- down the path: no table met there is the root, so each is read as before
  cases hpml4 : isPresent (s.tables root (pml4Index virt)) with
  | false => rfl
  | true =>
    have hne := h.pdpt_ne_root hpml4
    simp only [Bool.not_true, Bool.false_eq_true, if_false]
    generalize hpdpt : tableOf (s.tables root (pml4Index virt)) = pdpt at hne ⊢
    rw [set_of_ne fun hc => hne hc.1]
    cases hpres : isPresent (s.tables pdpt (pdptIndex virt)) with
    | false => rfl
    | true =>
      simp only [Bool.not_true, Bool.false_eq_true, if_false]
      generalize hpd : tableOf (s.tables pdpt (pdptIndex virt)) = pd
      have hne' := h.pd_ne_root hpml4 hpdpt hpres hpd
      rw [set_of_ne fun hc => hne' hc.1]
      cases hpres' : isPresent (s.tables pd (pdIndex virt)) with
      | false => rfl
      | true =>
        simp only [Bool.not_true, Bool.false_eq_true, if_false]
        cases hhuge : isHuge (s.tables pd (pdIndex virt)) with
        | true => exact put_comm fun hc => hne' hc.1.symm
        | false =>
          have hne'' := h.pt_ne_root hpml4 hpdpt hpres hpd hpres' hhuge
          exact put_comm fun hc => hne'' hc.1.symm

/-- **Addresses of another slot are translated as before.** -/
theorem vmmGetPhys_set (h : Wf tables root) (hslot : pml4Index virt ≠ slot) :
    vmmGetPhys (set tables root slot e) root virt = vmmGetPhys tables root virt := by
  unfold vmmGetPhys
  rw [set_of_ne fun hc => hslot hc.2]
  cases hpml4 : isPresent (tables root (pml4Index virt)) with
  | false => simp only [Bool.not_false, if_true]
  | true =>
    have hne := h.pdpt_ne_root hpml4
    simp only [Bool.not_true, Bool.false_eq_true, if_false]
    generalize hpdpt : tableOf (tables root (pml4Index virt)) = pdpt at hne ⊢
    rw [set_of_ne fun hc => hne hc.1]
    cases hpres : isPresent (tables pdpt (pdptIndex virt)) with
    | false => simp only [Bool.not_false, if_true]
    | true =>
      simp only [Bool.not_true, Bool.false_eq_true, if_false]
      generalize hpd : tableOf (tables pdpt (pdptIndex virt)) = pd
      have hne' := h.pd_ne_root hpml4 hpdpt hpres hpd
      rw [set_of_ne fun hc => hne' hc.1]
      cases hpres' : isPresent (tables pd (pdIndex virt)) with
      | false => simp only [Bool.not_false, if_true]
      | true =>
        simp only [Bool.not_true, Bool.false_eq_true, if_false]
        cases hhuge : isHuge (tables pd (pdIndex virt)) with
        | true => simp only [if_true]
        | false =>
          have hne'' := h.pt_ne_root hpml4 hpdpt hpres hpd hpres' hhuge
          simp only [Bool.false_eq_true, if_false]
          rw [set_of_ne fun hc => hne'' hc.1]

theorem missingTables_set (h : Wf tables root) (hslot : pml4Index virt ≠ slot) :
    missingTables (set tables root slot e) root virt = missingTables tables root virt := by
  unfold missingTables
  rw [set_of_ne fun hc => hslot hc.2]
  cases hpml4 : isPresent (tables root (pml4Index virt)) with
  | false => simp only [Bool.not_false, if_true]
  | true =>
    have hne := h.pdpt_ne_root hpml4
    simp only [Bool.not_true, Bool.false_eq_true, if_false]
    generalize hpdpt : tableOf (tables root (pml4Index virt)) = pdpt at hne ⊢
    rw [set_of_ne fun hc => hne hc.1]
    cases hpres : isPresent (tables pdpt (pdptIndex virt)) with
    | false => simp only [Bool.not_false, if_true]
    | true =>
      simp only [Bool.not_true, Bool.false_eq_true, if_false]
      generalize hpd : tableOf (tables pdpt (pdptIndex virt)) = pd
      have hne' := h.pd_ne_root hpml4 hpdpt hpres hpd
      rw [set_of_ne fun hc => hne' hc.1]

/-! ## A page outside the hierarchy -/

section Outside

variable {a : ℕ} {row : ℕ → ℕ} (ha : ¬ Under link tables root 3 a)
include ha

theorem ne_of_not_under (ht : Under link tables root 3 t) : t ≠ a := by
  rintro rfl
  exact ha ht

/-- What is written to it is no part of any region. -/
theorem absRegion_update (r : ℕ) :
    absRegion (Function.update tables a row) root r = absRegion tables root r := by
  refine absRegion_congr (walk_update_of_not_under ha (Nat.le_add_left 2 2)) ?_ ?_
  · intro pd hpd
    rw [Function.update_of_ne (ne_of_not_under ha ⟨dirPath r, Nat.le_succ 2, hpd⟩)]
  · intro pt hpt
    exact Function.update_of_ne (ne_of_not_under ha ⟨dirPath r ++ [r % 512], Nat.le_refl 3, hpt⟩) ..

theorem Wf.update (h : Wf tables root) (hrow : ∀ i, row i < 2 ^ 64) :
    Wf (Function.update tables a row) root := by
  have hwalk : ∀ q : List ℕ, q.length ≤ 3 →
      walk link (Function.update tables a row) root q = walk link tables root q := by
    intro q hq
    exact walk_update_of_not_under ha (by omega)
  refine ⟨?_, ?_, ?_, ?_⟩
  · intro t i
    by_cases ht : t = a
    · rw [ht, Function.update_self]
      exact hrow i
    · rw [Function.update_of_ne ht]
      exact h.word t i
  · intro q q' u hq hq' hu hu'
    rw [hwalk q hq] at hu
    rw [hwalk q' hq'] at hu'
    exact h.tree q q' u hq hq' hu hu'
  · intro q u hq hu i hpres
    rw [hwalk q (by omega)] at hu
    rw [Function.update_of_ne (ne_of_not_under ha ⟨q, by omega, hu⟩)] at hpres ⊢
    exact h.upper q u hq hu i hpres
  · intro q u hne hq hu
    rw [hwalk q hq] at hu
    exact h.ne_zero q u hne hq hu

end Outside

end Vmm

end Kos
