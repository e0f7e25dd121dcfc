import Kos.Vmm.Spec
/-!
# Vmm — the tables as a tree

`absRegion` reads the meaning of a region off the tables. It depends on
the walk to the page directory, on one entry of it and on the words of
one page table, so in a tree a write is seen by one region at most. This
file says what each kind of write does: linking an empty upper table
changes no region, linking an empty page table makes an empty region an
empty table, and a write to a leaf changes the region of that leaf.
-/

namespace Kos

namespace Vmm

open Radix

variable {tables : Tables ℕ} {root : ℕ} {p q : List ℕ} {t i j e r virt phys flags : ℕ}

/-! ## Entries -/

theorem isPresent_eq (e : ℕ) : isPresent e = e.testBit 0 := land_two_pow_bne_zero e 0

theorem isHuge_eq (e : ℕ) : isHuge e = e.testBit 7 := land_two_pow_bne_zero e 7

/-- The table an entry of a directory links to; a huge page is a leaf. -/
def link (e : ℕ) : Option ℕ := if isPresent e && !isHuge e then some (tableOf e) else none

theorem link_zero : link 0 = none := rfl

/-- A page the allocator can answer with. -/
structure PageAddr (p : ℕ) : Prop where
  ne_zero : p ≠ 0
  lt : p < 2 ^ 64
  aligned : p % pageSize = 0

/-- The entry that links a new table. -/
def linkEntry (table : ℕ) : ℕ := virtToPhys table ||| (ptPresent ||| ptWritable)

/-- **An entry made for a table links to that table.** -/
theorem link_linkEntry (h : PageAddr t) : link (linkEntry t) = some t ∧ linkEntry t < 2 ^ 64 ∧
    isHuge (linkEntry t) = false := by
  obtain ⟨-, hlt, hal⟩ := h
  -- the address leaves the low twelve bits to the flags
  obtain ⟨k, hk⟩ : ∃ k, virtToPhys t = 2 ^ 12 * k := by
    refine ⟨virtToPhys t / 4096, ?_⟩
    simp only [virtToPhys, sub64, kernelHigherHalf, pageSize] at *
    omega
  have hb : virtToPhys t < 2 ^ 64 := sub64_lt _ _
  have hflags : ptPresent ||| ptWritable < 2 ^ 12 := by decide
  have hpres : isPresent (linkEntry t) = true := by
    rw [isPresent_eq, linkEntry, hk, testBit_two_pow_mul_lor hflags (by decide)]
    decide
  have hhuge : isHuge (linkEntry t) = false := by
    rw [isHuge_eq, linkEntry, hk, testBit_two_pow_mul_lor hflags (by decide)]
    decide
  have htable : tableOf (linkEntry t) = t := by
    rw [tableOf, linkEntry, hk, pageMask, lor_land_highMask (by omega) hflags (by decide), ← hk]
    exact add64_sub64_cancel hlt
  refine ⟨?_, ?_, hhuge⟩
  · simp only [link, hpres, hhuge, Bool.not_false, Bool.and_self, if_true, htable]
  · rw [linkEntry, hk, two_pow_mul_lor hflags]
    simp only [ptPresent, ptWritable] at hflags ⊢
    omega

/-- **An entry made for a page** is present, and rounds to the page. -/
theorem pageEntry_spec (hp : phys < 2 ^ 52) (hf : flags < 2 ^ 12) (hpres : flags.testBit 0 = true) :
    isPresent ((phys &&& pageMask) ||| flags) = true ∧
      roundTo pageSize ((phys &&& pageMask) ||| flags) = roundTo pageSize phys ∧
      (phys &&& pageMask) ||| flags < 2 ^ 64 := by
  have hround : phys &&& pageMask = 2 ^ 12 * (phys / 4096) := land_pageMask (by omega)
  rw [hround]
  refine ⟨?_, ?_, ?_⟩
  · rw [isPresent_eq, testBit_two_pow_mul_lor hf (by decide), hpres]
  · rw [two_pow_mul_lor hf]
    simp only [roundTo, pageSize]
    omega
  · rw [two_pow_mul_lor hf]
    omega

/-- **An entry made for a huge page** is present and huge, and rounds to
the page. -/
theorem hugeEntry_spec (hp : phys < 2 ^ 52) (hf : flags < 2 ^ 12) (hpres : flags.testBit 0 = true) :
    isPresent ((phys &&& hugeMask) ||| flags ||| ptHuge) = true ∧
      isHuge ((phys &&& hugeMask) ||| flags ||| ptHuge) = true ∧
      roundTo hugePageSize ((phys &&& hugeMask) ||| flags ||| ptHuge) =
        roundTo hugePageSize phys ∧
      (phys &&& hugeMask) ||| flags ||| ptHuge < 2 ^ 64 := by
  have hround : phys &&& hugeMask = 2 ^ 21 * (phys / 2097152) :=
    land_highMask (by omega) (by decide)
  -- `PT_HUGE` is a flag like the others, below what the mask keeps
  have hlow : flags ||| ptHuge < 2 ^ 12 := Nat.or_lt_two_pow hf (by decide)
  have hlow' : flags ||| ptHuge < 2 ^ 21 := by omega
  rw [hround, Nat.or_assoc]
  refine ⟨?_, ?_, ?_, ?_⟩
  · rw [isPresent_eq, testBit_two_pow_mul_lor hlow' (by decide), Nat.testBit_or, hpres,
      Bool.true_or]
  · rw [isHuge_eq, testBit_two_pow_mul_lor hlow' (by decide), Nat.testBit_or]
    simp [ptHuge, show (0x80 : ℕ).testBit 7 = true from rfl]
  · rw [two_pow_mul_lor hlow']
    simp only [roundTo, hugePageSize]
    omega
  · rw [two_pow_mul_lor hlow']
    omega

/-! ## The meaning of the tables -/

/-- The path of a region's page directory. -/
def dirPath (r : ℕ) : List ℕ := [r / 2 ^ 18 % 512, r / 512 % 512]

/-- What a directory entry means. -/
def entryRegion (tables : Tables ℕ) (e : ℕ) : Region :=
  if !isPresent e then .empty
  else if isHuge e then .huge (roundTo hugePageSize e)
  else
    .table fun j =>
      if isPresent (tables (tableOf e) j) then some (roundTo pageSize (tables (tableOf e) j))
      else none

/-- **What the tables under `root` say about a region.** -/
def absRegion (tables : Tables ℕ) (root r : ℕ) : Region :=
  match walk link tables root (dirPath r) with
  | none => .empty
  | some pd => entryRegion tables (tables pd (r % 512))

/-- **The invariant of the tables**: words of 64 bits, a tree of three
levels of links, no huge page above the directories, and no table at
`NULL`. -/
structure Wf (tables : Tables ℕ) (root : ℕ) : Prop where
  word : ∀ t i, tables t i < 2 ^ 64
  tree : IsTree link tables root 3
  upper : ∀ p t, p.length ≤ 1 → walk link tables root p = some t →
    ∀ i, isPresent (tables t i) = true → isHuge (tables t i) = false
  ne_zero : ∀ p t, p ≠ [] → p.length ≤ 3 → walk link tables root p = some t → t ≠ 0

theorem link_of_present (hp : isPresent e = true) (hh : isHuge e = false) :
    link e = some (tableOf e) := by
  simp [link, hp, hh]

theorem link_of_not_present (hp : isPresent e = false) : link e = none := by
  simp [link, hp]

theorem link_of_huge (hh : isHuge e = true) : link e = none := by
  simp [link, hh]

theorem dirPath_length (r : ℕ) : (dirPath r).length = 2 := rfl

/-- A region is read off the walk to its directory, its entry there, and
the words of its page table. -/
theorem absRegion_congr {tables' : Tables ℕ}
    (hw : walk link tables' root (dirPath r) = walk link tables root (dirPath r))
    (hd : ∀ pd, walk link tables root (dirPath r) = some pd →
      tables' pd (r % 512) = tables pd (r % 512))
    (ht : ∀ pt, walk link tables root (dirPath r ++ [r % 512]) = some pt →
      tables' pt = tables pt) :
    absRegion tables' root r = absRegion tables root r := by
  unfold absRegion
  rw [hw]
  cases hpd : walk link tables root (dirPath r) with
  | none => rfl
  | some pd =>
    simp only
    rw [hd pd hpd, entryRegion, entryRegion]
    by_cases hp : isPresent (tables pd (r % 512)) = true
    -- only a present entry that is not huge has a table under it
    · by_cases hh : isHuge (tables pd (r % 512)) = true
      · simp [hp, hh]
      · rw [Bool.not_eq_true] at hh
        have hwalk : walk link tables root (dirPath r ++ [r % 512]) =
            some (tableOf (tables pd (r % 512))) := by
          rw [walk_snoc, hpd, Option.bind_some, link_of_present hp hh]
        rw [ht _ hwalk]
    · simp [hp]

/-- Region numbers and paths. -/
theorem region_path_inj {r r' : ℕ} (hr : r < 2 ^ 27) (hr' : r' < 2 ^ 27)
    (h : dirPath r = dirPath r') (hi : r % 512 = r' % 512) : r = r' := by
  simp only [dirPath, List.cons.injEq, and_true] at h
  omega

/-! ## What a write does -/

/-- The table at the end of a path is not that at the end of another. -/
theorem Wf.table_ne {u : ℕ} (h : Wf tables root) (hp : p.length ≤ 3) (hq : q.length ≤ 3)
    (ht : walk link tables root p = some t) (hu : walk link tables root q = some u)
    (hne : q ≠ p) : u ≠ t := by
  rintro rfl
  exact hne (h.tree q p u hq hp hu ht)

section Link

variable {new : ℕ} (h : Wf tables root) (ht : walk link tables root p = some t)
  (hold : isPresent (tables t i) = false) (ha : PageAddr new)
  (hnew : ¬ Under link tables root 3 new)
include h ht hold ha hnew

/-- The walks after a new table is linked. -/
theorem Wf.walk_link (hp : p.length ≤ 2) (hq : q.length ≤ 3) :
    walk link (linkNew tables t i (linkEntry new) new 0) root q =
      if q = p ++ [i] then some new else walk link tables root q :=
  h.tree.walk_linkNew (by omega) ht hnew (link_linkEntry ha).1 link_zero
    (link_of_not_present hold) hq

omit h ha ht hold in
/-- The words of the tables that were there, but for the entry. -/
theorem linkNew_of_under {u k : ℕ} (hu : Under link tables root 3 u) (hne : ¬ (u = t ∧ k = i)) :
    linkNew tables t i (linkEntry new) new 0 u k = tables u k := by
  have hun : u ≠ new := by
    rintro rfl
    exact hnew hu
  rw [linkNew, set_of_ne hne, Function.update_of_ne hun]

/-- **Linking a new table keeps the invariant.** -/
theorem Wf.linkNew (hp : p.length ≤ 2) :
    Wf (linkNew tables t i (linkEntry new) new 0) root := by
  obtain ⟨hlink, hlt, hnh⟩ := link_linkEntry ha
  have hwalk : ∀ q : List ℕ, q.length ≤ 3 → _ := fun q hq => h.walk_link ht hold ha hnew hp hq
  have htn : t ≠ new := by
    rintro rfl
    exact hnew ⟨p, by omega, ht⟩
  refine ⟨fun u k => ?_, h.tree.linkNew (by omega) ht hnew hlink link_zero
    (link_of_not_present hold), fun q u hq hu k hk => ?_, fun q u hne hq hu => ?_⟩
  · by_cases hw : u = t ∧ k = i
    · obtain ⟨rfl, rfl⟩ := hw
      rw [Radix.linkNew, set_self]
      exact hlt
    · rw [Radix.linkNew, set_of_ne hw]
      by_cases hun : u = new
      · subst hun
        rw [Function.update_self]
        decide
      · rw [Function.update_of_ne hun]
        exact h.word u k
  · rw [hwalk q (by omega)] at hu
    split at hu
    · -- the new table is empty
      cases hu
      rw [Radix.linkNew, set_of_ne fun hc => htn hc.1.symm, Function.update_self] at hk
      exact absurd hk (by decide)
    · by_cases hw : u = t ∧ k = i
      · obtain ⟨rfl, rfl⟩ := hw
        rw [Radix.linkNew, set_self]
        exact hnh
      · rw [linkNew_of_under hnew ⟨q, by omega, hu⟩ hw] at hk ⊢
        exact h.upper q u hq hu k hk
  · rw [hwalk q hq] at hu
    split at hu
    · cases hu
      exact ha.ne_zero
    · exact h.ne_zero q u hne hq hu

/-- **Linking an empty upper table changes no region.** -/
theorem Wf.absRegion_link_upper (hp : p.length ≤ 1) (r : ℕ) :
    absRegion (Radix.linkNew tables t i (linkEntry new) new 0) root r = absRegion tables root r := by
  have hlen := dirPath_length r
  have hwalk := h.walk_link (q := dirPath r) ht hold ha hnew (by omega) (by omega)
  by_cases hq : dirPath r = p ++ [i]
  · -- the directory is the new table, and there was none
    have hbefore : walk link tables root (dirPath r) = none := by
      rw [hq, walk_snoc, ht, Option.bind_some, link_of_not_present hold]
    have htn : new ≠ t := by
      rintro rfl
      exact hnew ⟨p, by omega, ht⟩
    rw [if_pos hq] at hwalk
    unfold absRegion
    rw [hwalk, hbefore]
    simp only
    rw [Radix.linkNew, set_of_ne fun hc => htn hc.1, Function.update_self]
    rfl
  · rw [if_neg hq] at hwalk
    refine absRegion_congr hwalk (fun pd hpd => ?_) fun pt hpt => ?_
    · refine linkNew_of_under hnew ⟨_, by omega, hpd⟩ fun hc => ?_
      exact h.table_ne (by omega) (by omega) ht hpd (fun he => by rw [← he] at hp; omega) hc.1
    · have hlen' : (dirPath r ++ [r % 512]).length = 3 := rfl
      funext k
      refine linkNew_of_under hnew ⟨_, by omega, hpt⟩ fun hc => ?_
      exact h.table_ne (by omega) (by omega) ht hpt (fun he => by rw [← he] at hp; omega) hc.1

/-- **Linking an empty page table** makes its region an empty table. -/
theorem Wf.absRegion_link_table {r₀ : ℕ} (hp : p = dirPath r₀) (hi : i = r₀ % 512)
    (hr₀ : r₀ < 2 ^ 27) {r : ℕ} (hr : r < 2 ^ 27) :
    absRegion (Radix.linkNew tables t i (linkEntry new) new 0) root r =
      if r = r₀ then .table fun _ => none else absRegion tables root r := by
  obtain ⟨hlink, -, hnh⟩ := link_linkEntry ha
  have hpl : p.length = 2 := by rw [hp]; rfl
  have hwalk : walk link (Radix.linkNew tables t i (linkEntry new) new 0) root (dirPath r) =
      walk link tables root (dirPath r) := by
    rw [h.walk_link ht hold ha hnew (by omega) (by rw [dirPath_length]; omega), if_neg]
    intro hc
    have := congrArg List.length hc
    rw [dirPath_length, List.length_append, List.length_singleton, hpl] at this
    omega
  have htn : new ≠ t := by
    rintro rfl
    exact hnew ⟨p, by omega, ht⟩
  -- the region of the new table, then those whose entries are elsewhere
  by_cases hrr : r = r₀
  · subst hrr
    rw [if_pos rfl]
    have hpres : isPresent (linkEntry new) = true := by
      by_contra hc
      rw [Bool.not_eq_true] at hc
      rw [link_of_not_present hc] at hlink
      cases hlink
    have htab : tableOf (linkEntry new) = new := by
      rw [link_of_present hpres hnh] at hlink
      exact Option.some.inj hlink
    unfold absRegion
    rw [hwalk, ← hp, ht]
    simp only
    rw [← hi, Radix.linkNew, set_self, entryRegion, hpres, hnh, htab]
    simp only [Bool.not_true, Bool.false_eq_true, if_false]
    refine congrArg Region.table (funext fun k => ?_)
    rw [set_of_ne fun hc => htn hc.1, Function.update_self]
    rfl
  · rw [if_neg hrr]
    refine absRegion_congr hwalk (fun pd hpd => ?_) fun pt hpt => ?_
    · refine linkNew_of_under hnew ⟨_, by rw [dirPath_length]; omega, hpd⟩ fun hc => ?_
      have hpath : dirPath r = p := by
        by_contra hne
        exact h.table_ne (by omega) (by rw [dirPath_length]; omega) ht hpd hne hc.1
      exact hrr (region_path_inj hr hr₀ (hpath.trans hp) (hc.2.trans hi))
    · have hlen' : (dirPath r ++ [r % 512]).length = 3 := rfl
      funext k
      refine linkNew_of_under hnew ⟨_, by omega, hpt⟩ fun hc => ?_
      refine h.table_ne (by omega) (by omega) ht hpt (fun he => ?_) hc.1
      rw [← he] at hpl
      omega

end Link

section Write

variable (h : Wf tables root) (ht : walk link tables root p = some t) (he : e < 2 ^ 64)
include h ht he

/-- Storing a word keeps the words in range. -/
theorem Wf.word_set (u k : ℕ) : set tables t i e u k < 2 ^ 64 := by
  by_cases hw : u = t ∧ k = i
  · obtain ⟨rfl, rfl⟩ := hw
    rw [set_self]
    exact he
  · rw [set_of_ne hw]
    exact h.word u k

/-- **A write to a page table keeps the invariant.** -/
theorem Wf.set_leaf (hp : p.length = 3) : Wf (set tables t i e) root := by
  have hwalk : ∀ q : List ℕ, q.length ≤ 3 →
      walk link (set tables t i e) root q = walk link tables root q := fun q hq =>
    h.tree.walk_set_leaf hp ht hq
  refine ⟨h.word_set ht he, h.tree.set_leaf hp ht, fun q u hq hu k hk => ?_,
    fun q u hne hq hu => ?_⟩
  · rw [hwalk q (by omega)] at hu
    have hut : u ≠ t := h.table_ne (by omega) (by omega) ht hu fun hc => by rw [hc] at hq; omega
    rw [set_of_ne fun hc => hut hc.1] at hk ⊢
    exact h.upper q u hq hu k hk
  · rw [hwalk q hq] at hu
    exact h.ne_zero q u hne hq hu

omit he in
/-- **A write to a page table changes one frame of one region.** -/
theorem Wf.absRegion_set_leaf {r₀ : ℕ} (hp : p = dirPath r₀ ++ [r₀ % 512]) (hr₀ : r₀ < 2 ^ 27)
    {r : ℕ} (hr : r < 2 ^ 27) :
    absRegion (set tables t i e) root r =
      if r = r₀ then
        .table (Function.update (absRegion tables root r₀).frames i
          (if isPresent e then some (roundTo pageSize e) else none))
      else absRegion tables root r := by
  have hpl : p.length = 3 := by rw [hp]; rfl
  have hwalk : walk link (set tables t i e) root (dirPath r) = walk link tables root (dirPath r) :=
    h.tree.walk_set_leaf hpl ht (by rw [dirPath_length]; omega)
  have hdir : ∀ pd, walk link tables root (dirPath r) = some pd → pd ≠ t := fun pd hpd =>
    h.table_ne (by omega) (by rw [dirPath_length]; omega) ht hpd fun hc => by
      rw [← hc, dirPath_length] at hpl
      omega
  by_cases hrr : r = r₀
  · subst hrr
    rw [hp, walk_snoc] at ht
    rw [if_pos rfl]
    -- the walk reached the table through a present entry of the directory
    cases hpd : walk link tables root (dirPath r) with
    | none =>
      rw [hpd] at ht
      cases ht
    | some pd =>
      rw [hpd, Option.bind_some] at ht
      have hpres : isPresent (tables pd (r % 512)) = true := by
        by_contra hc
        rw [Bool.not_eq_true] at hc
        rw [link_of_not_present hc] at ht
        cases ht
      have hnh : isHuge (tables pd (r % 512)) = false := by
        by_contra hc
        rw [Bool.not_eq_false] at hc
        rw [link_of_huge hc] at ht
        cases ht
      have htab : tableOf (tables pd (r % 512)) = t := by
        rw [link_of_present hpres hnh] at ht
        exact Option.some.inj ht
      simp only [absRegion, hwalk, hpd, set_of_ne fun hc => hdir pd hpd hc.1, entryRegion, hpres,
        hnh, htab, Bool.not_true, Bool.false_eq_true, if_false, Region.frames]
      refine congrArg Region.table (funext fun k => ?_)
      by_cases hk : k = i
      · subst hk
        rw [set_self, Function.update_self]
      · rw [set_of_ne fun hc => hk hc.2, Function.update_of_ne hk]
  · rw [if_neg hrr]
    refine absRegion_congr hwalk (fun pd hpd => set_of_ne fun hc => hdir pd hpd hc.1)
      fun pt hpt => ?_
    have hne : pt ≠ t := by
      refine h.table_ne (q := dirPath r ++ [r % 512]) (by omega) (Nat.le_refl 3) ht hpt ?_
      refine fun hc => hrr ?_
      rw [hp] at hc
      obtain ⟨h1, h2⟩ := List.append_inj hc rfl
      exact region_path_inj hr hr₀ h1 (by simpa using h2)
    funext k
    exact set_of_ne fun hc => hne hc.1

/-- **A write of a leaf to a directory keeps the invariant.** -/
theorem Wf.set_dir (hp : p.length = 2) (hl : link e = none) : Wf (set tables t i e) root := by
  refine ⟨h.word_set ht he, h.tree.cut (by omega) ht hl, fun q u hq hu k hk => ?_,
    fun q u hne hq hu => ?_⟩
  · have hold := (h.tree.walk_cut (by omega) ht hl (by omega) hu).1
    have hut : u ≠ t := h.table_ne (by omega) (by omega) ht hold fun hc => by rw [hc] at hq; omega
    rw [set_of_ne fun hc => hut hc.1] at hk ⊢
    exact h.upper q u hq hold k hk
  · exact h.ne_zero q u hne hq (h.tree.walk_cut (by omega) ht hl hq hu).1

omit he in
/-- **A write of a leaf to a directory replaces one region.** -/
theorem Wf.absRegion_set_dir {r₀ : ℕ} (hp : p = dirPath r₀) (hi : i = r₀ % 512)
    (hr₀ : r₀ < 2 ^ 27) (hl : link e = none) {r : ℕ} (hr : r < 2 ^ 27) :
    absRegion (set tables t i e) root r =
      if r = r₀ then if isPresent e then .huge (roundTo hugePageSize e) else .empty
      else absRegion tables root r := by
  have hpl : p.length = 2 := by rw [hp]; rfl
  have hwalk : walk link (set tables t i e) root (dirPath r) =
      walk link tables root (dirPath r) := by
    refine h.tree.walk_set (by omega) ht (by rw [dirPath_length]; omega) fun hc => ?_
    have := hc.length_le
    rw [dirPath_length, List.length_append, List.length_singleton, hpl] at this
    omega
  by_cases hrr : r = r₀
  · subst hrr
    rw [if_pos rfl]
    unfold absRegion
    rw [hwalk, ← hp, ht]
    simp only
    rw [← hi, set_self, entryRegion]
    by_cases hpres : isPresent e = true
    -- an entry that links nothing and is present is a huge page
    · have hh : isHuge e = true := by
        by_contra hc
        rw [Bool.not_eq_true] at hc
        rw [link_of_present hpres hc] at hl
        cases hl
      simp [hpres, hh]
    · simp [hpres]
  · rw [if_neg hrr]
    refine absRegion_congr hwalk (fun pd hpd => set_of_ne fun hc => ?_) fun pt hpt => ?_
    · have hpath : dirPath r = p := by
        by_contra hne
        exact h.table_ne (by omega) (by rw [dirPath_length]; omega) ht hpd hne hc.1
      exact hrr (region_path_inj hr hr₀ (hpath.trans hp) (hc.2.trans hi))
    · have hne : pt ≠ t := by
        refine h.table_ne (q := dirPath r ++ [r % 512]) (by omega) (Nat.le_refl 3) ht hpt ?_
        intro hc
        rw [← hc, List.length_append, dirPath_length, List.length_singleton] at hpl
        omega
      funext k
      exact set_of_ne fun hc => hne hc.1

end Write

end Vmm

end Kos
