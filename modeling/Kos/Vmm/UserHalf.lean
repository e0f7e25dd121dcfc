import Kos.Vmm.MapPages
/-!
# Vmm — the user half of an address space

The kernel half of a PML4 leads to tables that all address spaces share,
and back to the PML4. Below index 256 there is nothing shared. A call for
user addresses neither reads nor writes an entry of the kernel half, so it
does on the tables what it does on the hierarchy without it, which is a
tree.
-/

namespace Kos

namespace Vmm

open Radix

variable {tables : Tables ℕ} {s s' : Mm} {root t i e v count virt phys flags : ℕ} {pmm : List ℕ}

/-- Addresses of the user half. -/
def UserAddr (virt : ℕ) : Prop := pml4Index virt < 256

instance (virt : ℕ) : Decidable (UserAddr virt) := inferInstanceAs (Decidable (_ < _))

/-- The hierarchy without the kernel half of its PML4. -/
def userHalf (tables : Tables ℕ) (pml4 : ℕ) : Tables ℕ :=
  Function.update tables pml4 fun i => if i < 256 then tables pml4 i else 0

theorem userHalf_of_user (h : t = root → i < 256) : userHalf tables root t i = tables t i := by
  by_cases ht : t = root
  · subst ht
    rw [userHalf, Function.update_self, if_pos (h rfl)]
  · rw [userHalf, Function.update_of_ne ht]

theorem userHalf_of_kernel (h : 256 ≤ i) : userHalf tables root root i = 0 := by
  rw [userHalf, Function.update_self, if_neg (by omega)]

theorem userHalf_of_ne (h : t ≠ root) : userHalf tables root t = tables t :=
  Function.update_of_ne h ..

theorem userHalf_word (hword : ∀ t i, tables t i < 2 ^ 64) (root t i : ℕ) :
    userHalf tables root t i < 2 ^ 64 := by
  by_cases hc : t = root ∧ 256 ≤ i
  · obtain ⟨rfl, hi⟩ := hc
    rw [userHalf_of_kernel hi]
    exact Nat.two_pow_pos 64
  · rw [userHalf_of_user fun ht => by by_contra hi; exact hc ⟨ht, by omega⟩]
    exact hword t i

/-! ## The same up to the kernel half -/

/-- **The same but for the kernel half of the PML4.** -/
structure Alike (root : ℕ) (s s' : Mm) : Prop where
  pmm : s'.pmm = s.pmm
  tables : ∀ t i, (t = root → i < 256) → s'.tables t i = s.tables t i

theorem alike_userHalf (tables : Tables ℕ) (root : ℕ) (pmm : List ℕ) :
    Alike root ⟨userHalf tables root, pmm⟩ ⟨tables, pmm⟩ :=
  ⟨rfl, fun _ _ h => (userHalf_of_user h).symm⟩

theorem Alike.put (h : Alike root s s') (t i e : ℕ) : Alike root (s.put t i e) (s'.put t i e) := by
  refine ⟨h.pmm, fun u j hj => ?_⟩
  by_cases hc : u = t ∧ j = i
  · obtain ⟨rfl, rfl⟩ := hc
    exact (set_self ..).trans (set_self ..).symm
  · exact (set_of_ne hc).trans ((h.tables u j hj).trans (set_of_ne hc).symm)

/-- Opening a table from an entry of the user half. -/
theorem Alike.openTable (h : Alike root s s') (flags : ℕ) (ht : t = root → i < 256) :
    (getOrCreateTable s' t i flags).1 = (getOrCreateTable s t i flags).1 ∧
      Alike root (getOrCreateTable s t i flags).2 (getOrCreateTable s' t i flags).2 := by
  obtain ⟨tables, pmm⟩ := s
  obtain ⟨tables', pmm'⟩ := s'
  obtain rfl : pmm' = pmm := h.pmm
  have hentry : tables' t i = tables t i := h.tables t i ht
  simp only [getOrCreateTable, hentry]
  split
  · exact ⟨rfl, h⟩
  · cases pmm' with
    | nil => exact ⟨rfl, h⟩
    | cons new rest =>
      simp only [pmmAllocPage]
      by_cases hz : new = 0
      · simp only [hz, if_true]
        exact ⟨trivial, rfl, h.tables⟩
      · simp only [hz, if_false]
        have hcleared : Alike root ⟨Function.update tables new fun _ => 0, rest⟩
            ⟨Function.update tables' new fun _ => 0, rest⟩ := by
          refine ⟨rfl, fun u j hj => ?_⟩
          by_cases hu : u = new
          · simp only [hu, Function.update_self]
          · simp only [Function.update_of_ne hu]
            exact h.tables u j hj
        exact ⟨trivial, hcleared.put t i _⟩

/-- Replacing an entry of the user half. -/
theorem Alike.replace (h : Alike root s s') (ht : t = root → i < 256) (entry : ℕ) :
    Alike root ((if isPresent (s.tables t i) then s.put t i 0 else s).put t i entry)
      ((if isPresent (s'.tables t i) then s'.put t i 0 else s').put t i entry) := by
  rw [h.tables t i ht]
  split
  · exact (h.put t i 0).put t i entry
  · exact h.put t i entry

/-- **`vmm_map_page` of a user address.** -/
theorem Alike.mapPage (h : Alike root s s') (phys flags : ℕ) (hwf : Wf s.tables root)
    (hf : Fresh s root) (hnh : ∀ base, absRegion s.tables root (regionOf virt) ≠ .huge base)
    (hv : UserAddr virt) :
    (vmmMapPage s' root virt phys flags).1 = (vmmMapPage s root virt phys flags).1 ∧
      Alike root (vmmMapPage s root virt phys flags).2 (vmmMapPage s' root virt phys flags).2 := by
  obtain ⟨hfirst, hdir⟩ := open_directory hwf hf virt
  obtain ⟨hopen, halike⟩ := h.openTable (ptPresent ||| ptWritable)
    (t := root) (i := pml4Index virt) fun _ => hv
  obtain ⟨hkept₁, hwalk₁⟩ := getOrCreateTable_upper (p := []) (i := pml4Index virt) hwf hf
    (Nat.zero_le 1) rfl
  unfold vmmMapPage
  simp only [hopen]
  generalize getOrCreateTable s root (pml4Index virt) (ptPresent ||| ptWritable) = r at *
  generalize getOrCreateTable s' root (pml4Index virt) (ptPresent ||| ptWritable) = q at *
  split
  · exact ⟨rfl, halike⟩
  · rename_i hne
    obtain ⟨hkept, hwalk⟩ := hdir hne
    have hr : r.1 ≠ root :=
      hkept₁.wf.ne_root (hwalk₁ hne) (List.cons_ne_nil _ _) (Nat.le_add_left 1 2)
    obtain ⟨hopen', halike'⟩ := halike.openTable (ptPresent ||| ptWritable)
      (t := r.1) (i := pdptIndex virt) fun hc => absurd hc hr
    simp only [hopen']
    generalize getOrCreateTable r.2 r.1 (pdptIndex virt) (ptPresent ||| ptWritable) = r' at *
    generalize getOrCreateTable q.2 r.1 (pdptIndex virt) (ptPresent ||| ptWritable) = q' at *
    split
    · exact ⟨rfl, halike'⟩
    · rename_i hne'
      have hr' : r'.1 ≠ root := hkept.wf.ne_root (hwalk hne') (List.cons_ne_nil _ _) (Nat.le_succ 2)
      obtain ⟨hwf', -, hok⟩ := hkept.open_table hnh (hwalk hne')
      obtain ⟨hopen'', halike''⟩ := halike'.openTable (ptPresent ||| ptWritable)
        (t := r'.1) (i := pdIndex virt) fun hc => absurd hc hr'
      simp only [hopen'']
      generalize getOrCreateTable r'.2 r'.1 (pdIndex virt) (ptPresent ||| ptWritable) = r'' at *
      generalize getOrCreateTable q'.2 r'.1 (pdIndex virt) (ptPresent ||| ptWritable) = q'' at *
      split
      · exact ⟨rfl, halike''⟩
      · rename_i hz
        have hpt : r''.1 ≠ root :=
          hwf'.ne_root (hok hz).1 (List.cons_ne_nil _ _) (Nat.le_refl 3)
        exact ⟨rfl, halike''.replace (fun hc => absurd hc hpt) _⟩

/-- **`vmm_unmap_page` of a user address.** -/
theorem Alike.unmapPage (h : Alike root s s') (hwf : Wf s.tables root) (hv : UserAddr virt) :
    Alike root (vmmUnmapPage s root virt) (vmmUnmapPage s' root virt) := by
  unfold vmmUnmapPage
  rw [h.tables root (pml4Index virt) fun _ => hv]
  -- down the path: no table met there is the root
  cases hpml4 : isPresent (s.tables root (pml4Index virt)) with
  | false => exact h
  | true =>
    have hne := hwf.pdpt_ne_root hpml4
    simp only [Bool.not_true, Bool.false_eq_true, if_false]
    generalize hpdpt : tableOf (s.tables root (pml4Index virt)) = pdpt at hne ⊢
    rw [h.tables pdpt _ fun hc => absurd hc hne]
    cases hpres : isPresent (s.tables pdpt (pdptIndex virt)) with
    | false => exact h
    | true =>
      simp only [Bool.not_true, Bool.false_eq_true, if_false]
      generalize hpd : tableOf (s.tables pdpt (pdptIndex virt)) = pd
      have hne' := hwf.pd_ne_root hpml4 hpdpt hpres hpd
      rw [h.tables pd _ fun hc => absurd hc hne']
      cases hpres' : isPresent (s.tables pd (pdIndex virt)) with
      | false => exact h
      | true =>
        simp only [Bool.not_true, Bool.false_eq_true, if_false]
        cases hhuge : isHuge (s.tables pd (pdIndex virt)) with
        | true => exact h.put _ _ _
        | false => exact h.put _ _ _

/-- **`vmm_get_phys` of a user address.** -/
theorem Alike.getPhys (h : Alike root s s') (hwf : Wf s.tables root) (hv : UserAddr virt) :
    vmmGetPhys s'.tables root virt = vmmGetPhys s.tables root virt := by
  unfold vmmGetPhys
  rw [h.tables root (pml4Index virt) fun _ => hv]
  cases hpml4 : isPresent (s.tables root (pml4Index virt)) with
  | false => simp only [Bool.not_false, if_true]
  | true =>
    have hne := hwf.pdpt_ne_root hpml4
    simp only [Bool.not_true, Bool.false_eq_true, if_false]
    generalize hpdpt : tableOf (s.tables root (pml4Index virt)) = pdpt at hne ⊢
    rw [h.tables pdpt _ fun hc => absurd hc hne]
    cases hpres : isPresent (s.tables pdpt (pdptIndex virt)) with
    | false => simp only [Bool.not_false, if_true]
    | true =>
      simp only [Bool.not_true, Bool.false_eq_true, if_false]
      generalize hpd : tableOf (s.tables pdpt (pdptIndex virt)) = pd
      have hne' := hwf.pd_ne_root hpml4 hpdpt hpres hpd
      rw [h.tables pd _ fun hc => absurd hc hne']
      cases hpres' : isPresent (s.tables pd (pdIndex virt)) with
      | false => simp only [Bool.not_false, if_true]
      | true =>
        simp only [Bool.not_true, Bool.false_eq_true, if_false]
        cases hhuge : isHuge (s.tables pd (pdIndex virt)) with
        | true => simp only [if_true]
        | false =>
          have hne'' := hwf.pt_ne_root hpml4 hpdpt hpres hpd hpres' hhuge
          simp only [Bool.false_eq_true, if_false]
          rw [h.tables _ _ fun hc => absurd hc hne'']

theorem vmmGetPhys_userHalf (hwf : Wf (userHalf tables root) root) (hv : UserAddr virt) :
    vmmGetPhys tables root virt = vmmGetPhys (userHalf tables root) root virt :=
  (alike_userHalf tables root []).getPhys hwf hv

/-- What a call leaves of the user half: the kernel half of the hierarchy
it was followed on stays empty. -/
theorem Alike.userHalf_eq (h : Alike root s s') (hkernel : ∀ i, 256 ≤ i → s.tables root i = 0) :
    userHalf s'.tables root = s.tables := by
  funext t i
  by_cases hc : t = root ∧ 256 ≤ i
  · obtain ⟨rfl, hi⟩ := hc
    rw [userHalf_of_kernel hi, hkernel i hi]
  · have huser : t = root → i < 256 := fun ht => by
      by_contra hi
      exact hc ⟨ht, by omega⟩
    rw [userHalf_of_user huser, h.tables t i huser]

/-! ## Tables that change elsewhere -/

/-- No table is at `NULL`. -/
theorem Wf.under_ne_zero {f : ℕ} (h : Wf tables root) (hroot : root ≠ 0)
    (hf : Under link tables root 3 f) : f ≠ 0 := by
  obtain ⟨q, hq, hw⟩ := hf
  by_cases hne : q = []
  · subst hne
    cases hw
    exact hroot
  · exact h.ne_zero q f hne hq hw

/-- **What is not under the root can change at will.** -/
theorem Wf.congr {tables' : Tables ℕ} (h : Wf tables root) (hword : ∀ t i, tables' t i < 2 ^ 64)
    (hsame : ∀ f, Under link tables root 3 f → tables' f = tables f) :
    Wf tables' root ∧ (∀ f, Under link tables' root 3 f → Under link tables root 3 f) ∧
      ∀ k, absRegion tables' root k = absRegion tables root k := by
  have hwalk : ∀ q : List ℕ, q.length ≤ 3 →
      walk link tables' root q = walk link tables root q := by
    intro q hq
    exact walk_congr hsame (by omega)
  refine ⟨⟨hword, ?_, ?_, ?_⟩, ?_, fun k => ?_⟩
  · intro q q' u hq hq' hu hu'
    rw [hwalk q hq] at hu
    rw [hwalk q' hq'] at hu'
    exact h.tree q q' u hq hq' hu hu'
  · intro q u hq hu j hpres
    rw [hwalk q (by omega)] at hu
    rw [hsame u ⟨q, by omega, hu⟩] at hpres ⊢
    exact h.upper q u hq hu j hpres
  · intro q u hne hq hu
    rw [hwalk q hq] at hu
    exact h.ne_zero q u hne hq hu
  · rintro f ⟨q, hq, hw⟩
    exact ⟨q, hq, (hwalk q hq).symm.trans hw⟩
  · refine absRegion_congr (walk_congr hsame (Nat.le_add_left 2 2)) ?_ ?_
    · intro pd hpd
      rw [hsame pd ⟨dirPath k, Nat.le_succ 2, hpd⟩]
    · intro pt hpt
      exact hsame pt ⟨dirPath k ++ [k % 512], Nat.le_refl 3, hpt⟩

end Vmm

end Kos
