import Kos.Common.Ownership
import Kos.Pmm.Supply
import Kos.Vmm.Spaces
import Kos.Vmm.UserHalf
/-!
# Vmm — address spaces on the kernel's own page allocator

`vmm_create_address_space`, `vmm_map_pages` and `vmm_unmap_page` take
their pages from `pmm_alloc_page`, which the rest of the kernel uses as
well. Nothing is assumed of the pages here: what the other modules ask of
the allocator is what it does. A page that is a table of one address
space, the frame of one of its user pages or part of a block somebody
else was given is that and nothing else, and will not be handed out
again.

The rest of the kernel may write what it likes but for the tables of user
halves: its own tables, the kernel half of every PML4, its blocks.
The calls are made one after the other; `vmm.c` takes no lock.
-/

namespace Kos

namespace Vmm

open Radix
open Pmm (answers afterPages privateBitmaps)

/-! ## The machine -/

/-- What a page is for. -/
inductive Use
  | table (space : ℕ)
  | page (space number : ℕ)
  | block (ptr : ℕ)
  deriving DecidableEq, Repr

/-- The page of a physical address, as a pointer. -/
def frameOfPhys (phys : ℕ) : ℕ := physToVirt (roundTo pageSize phys)

/-- **The uses of pages**: the tables of the user half of an address space,
what its user addresses are translated to, and the blocks of others. -/
inductive Uses (tables : Tables ℕ) (spaces : List ℕ) (blocks : List (ℕ × ℕ)) : ℕ → Use → Prop
  | table {space f : ℕ} (hspace : space ∈ spaces)
      (hf : Under link (userHalf tables space) space 3 f) :
      Uses tables spaces blocks f (.table space)
  | page {space virt : ℕ} (hspace : space ∈ spaces) (hv : UserAddr virt)
      (hmapped : vmmGetPhys tables space virt ≠ 0) :
      Uses tables spaces blocks (frameOfPhys (vmmGetPhys tables space virt))
        (.page space (pageOf virt))
  | block {ptr count k : ℕ} (hblock : (ptr, count) ∈ blocks) (hk : k < count) :
      Uses tables spaces blocks (Pmm.blockPage ptr k) (.block ptr)

/-- The page allocator, the tables, the address spaces created so far and
the blocks given to others, each with its number of pages. -/
structure Memory (σ : Type) where
  pmm : σ
  tables : Tables ℕ
  spaces : List ℕ
  blocks : List (ℕ × ℕ)

def Memory.Uses {σ : Type} (m : Memory σ) : ℕ → Use → Prop :=
  Vmm.Uses m.tables m.spaces m.blocks

/-- What happens: calls for address spaces, allocations and frees by
anybody, and what the rest of the kernel writes. -/
inductive Memory.Op
  | create
  | mapPages (space virt count flags : ℕ)
  | unmapPage (space virt : ℕ)
  | alloc (r : Pmm.Request)
  | freePage (addr : ℕ)
  | freePages (addr count : ℕ)
  | write (tables : Tables ℕ)

/-- **One step.** A call gets the answers of as many calls of
`pmm_alloc_page` as it can make: a page and three tables for each page it
maps. Those it did not ask for are not taken. -/
def Memory.step {σ : Type} (A : Pmm.Allocator σ) (kernelPml4 : ℕ) (m : Memory σ) :
    Memory.Op → Memory σ
  | .create =>
    let (space, s) := vmmCreateAddressSpace ⟨m.tables, answers A.allocPage 1 m.pmm⟩ kernelPml4
    { m with
      pmm := afterPages A.allocPage 1 m.pmm
      tables := s.tables
      spaces := if space = 0 then m.spaces else physToVirt space :: m.spaces }
  | .mapPages space virt count flags =>
    let r := vmmMapPages ⟨m.tables, answers A.allocPage (4 * count) m.pmm⟩ space virt count flags
    { m with
      pmm := afterPages A.allocPage (4 * count - r.mm.pmm.length) m.pmm
      tables := r.mm.tables }
  | .unmapPage space virt => { m with tables := (vmmUnmapPage ⟨m.tables, []⟩ space virt).tables }
  | .alloc r =>
    let (pmm, ptr) := A.alloc m.pmm r
    { m with pmm := pmm, blocks := if ptr = 0 then m.blocks else (ptr, r.count) :: m.blocks }
  | .freePage addr => { m with pmm := A.freePage m.pmm addr }
  | .freePages addr count => { m with pmm := A.freePages m.pmm addr count }
  | .write tables => { m with tables := tables }

/-- **What may happen**: user addresses of address spaces are mapped and
unmapped, and what is written elsewhere leaves the user halves alone. -/
def Memory.Permitted {σ : Type} (m : Memory σ) : Memory.Op → Prop
  | .mapPages space virt count flags =>
    space ∈ m.spaces ∧ flags < 2 ^ 12 ∧ ∀ j < count, UserAddr (nthPage virt j)
  | .unmapPage space virt => space ∈ m.spaces ∧ UserAddr virt
  | .write tables =>
    (∀ t i, tables t i < 2 ^ 64) ∧
      ∀ space ∈ m.spaces, ∀ f, Under link (userHalf m.tables space) space 3 f →
        ∀ i, (f = space → i < 256) → tables f i = m.tables f i
  | _ => True

/-- **After the kernel has its PML4**, the first page there is, with
anything in memory. -/
def Memory.boot {σ : Type} (A : Pmm.Allocator σ) (pmm : σ) (tables : Tables ℕ) : Memory σ where
  pmm := (A.allocPage pmm).1
  tables := tables
  spaces := []
  blocks := [((A.allocPage pmm).2, 1)]

/-- The PML4 of the kernel, if bitmaps are private. -/
def kernelPml4 (mmap : List Pmm.MmapEntry) : ℕ := (Pmm.pmmAllocPage (Pmm.pmmInit mmap)).2

/-- One step, if bitmaps are private. -/
abbrev privateStep (mmap : List Pmm.MmapEntry) (m : Memory Pmm.State) (op : Memory.Op) :
    Memory Pmm.State := m.step privateBitmaps (kernelPml4 mmap) op

/-! ## The invariant -/

variable {mmap : List Pmm.MmapEntry} {m : Memory Pmm.State} {s t : Mm} {tables' : Tables ℕ}
  {space virt phys flags page a : ℕ} {use : Use} {p p' : Pmm.State}

/-- **The user halves are trees of small pages**, and every page has one
use. -/
structure Memory.Inv (mmap : List Pmm.MmapEntry) (m : Memory Pmm.State) : Prop where
  layout : Pmm.SameLayout m.pmm (Pmm.pmmInit mmap)
  words : ∀ t i, m.tables t i < 2 ^ 64
  kernel : (kernelPml4 mmap, 1) ∈ m.blocks
  ne_zero : ∀ space ∈ m.spaces, space ≠ 0
  wf : ∀ space ∈ m.spaces, Wf (userHalf m.tables space) space
  small : ∀ space ∈ m.spaces, ∀ r < 2 ^ 27, ∀ base,
    absRegion (userHalf m.tables space) space r ≠ .huge base
  sole : SoleUse m.Uses (Pmm.Available m.pmm)

/-- Rows that are the same have the same user half. -/
theorem userHalf_congr {tables : Tables ℕ} {root f : ℕ}
    (h : ∀ i, (f = root → i < 256) → tables' f i = tables f i) :
    userHalf tables' root f = userHalf tables root f := by
  funext i
  by_cases hc : f = root ∧ 256 ≤ i
  · obtain ⟨rfl, hi⟩ := hc
    rw [userHalf_of_kernel hi, userHalf_of_kernel hi]
  · have huser : f = root → i < 256 := fun hf => by
      by_contra hi
      exact hc ⟨hf, by omega⟩
    rw [userHalf_of_user huser, userHalf_of_user huser, h i huser]

/-- **The user half stays**: its tables and what they translate. -/
structure KeepsHalf (tables tables' : Tables ℕ) (space : ℕ) : Prop where
  wf : Wf (userHalf tables' space) space
  under : ∀ f, Under link (userHalf tables' space) space 3 f →
    Under link (userHalf tables space) space 3 f
  regions : ∀ r, absRegion (userHalf tables' space) space r =
    absRegion (userHalf tables space) space r
  getPhys : ∀ virt, UserAddr virt → vmmGetPhys tables' space virt = vmmGetPhys tables space virt

/-- A user page is still in use. -/
theorem KeepsHalf.usesPage (h : KeepsHalf m.tables tables' space) (hspace : space ∈ m.spaces)
    (hv : UserAddr virt) (hmapped : vmmGetPhys tables' space virt ≠ 0) :
    m.Uses (frameOfPhys (vmmGetPhys tables' space virt)) (.page space (pageOf virt)) := by
  rw [h.getPhys virt hv] at hmapped ⊢
  exact .page hspace hv hmapped

/-- Where the tables of a user half stay, it does. -/
theorem Memory.Inv.kept (h : m.Inv mmap) (hspace : space ∈ m.spaces)
    (hword : ∀ t i, tables' t i < 2 ^ 64)
    (hsame : ∀ f, Under link (userHalf m.tables space) space 3 f →
      ∀ i, (f = space → i < 256) → tables' f i = m.tables f i) :
    KeepsHalf m.tables tables' space := by
  obtain ⟨hwf, hunder, hregions⟩ := (h.wf space hspace).congr
    (userHalf_word hword space) fun f hf => userHalf_congr (hsame f hf)
  refine ⟨hwf, hunder, hregions, fun virt hv => ?_⟩
  rw [vmmGetPhys_userHalf hwf hv, vmmGetPhys_userHalf (h.wf space hspace) hv, hwf.vmmGetPhys_eq,
    (h.wf space hspace).vmmGetPhys_eq, hregions]

/-! ## A call on one address space -/

/-- **A call for one address space**: the invariant holds after it, and the
other address spaces do not see it. -/
structure Memory.CallFor (mmap : List Pmm.MmapEntry) (m : Memory Pmm.State) (space : ℕ)
    (p : Pmm.State) (tables' : Tables ℕ) : Prop where
  inv : Memory.Inv mmap { m with pmm := p, tables := tables' }
  others : ∀ r ∈ m.spaces, r ≠ space → ∀ virt, UserAddr virt →
    vmmGetPhys tables' r virt = vmmGetPhys m.tables r virt

/-- Taking a page and putting it to no use. -/
theorem Memory.Inv.shrink (h : m.Inv mmap) (hp : Pmm.Shrinks m.pmm p) :
    Memory.Inv mmap { m with pmm := p } :=
  ⟨hp.layout.trans h.layout, h.words, h.kernel, h.ne_zero, h.wf, h.small,
    h.sole.mono hp.available fun _ _ hu => hu⟩

theorem Memory.Inv.callFor (h : m.Inv mmap) (hp : Pmm.Shrinks m.pmm p) (space : ℕ) :
    m.CallFor mmap space p m.tables :=
  ⟨h.shrink hp, fun _ _ _ _ _ => rfl⟩

theorem Memory.CallFor.trans {tables'' : Tables ℕ} (h : m.CallFor mmap space p tables')
    (h' : Memory.CallFor mmap { m with pmm := p, tables := tables' } space p' tables'') :
    m.CallFor mmap space p' tables'' :=
  ⟨h'.inv, fun r hr hne virt hv => (h'.others r hr hne virt hv).trans (h.others r hr hne virt hv)⟩

/-- **A call followed on the user half of one address space**: from `s` to
`t` there, and to `tables'` in memory. -/
structure Followed (m : Memory Pmm.State) (space : ℕ) (s t : Mm) (tables' : Tables ℕ) :
    Prop where
  start : s.tables = userHalf m.tables space
  pages : ∀ a ∈ s.pmm, a ≠ 0 → Pmm.Available m.pmm a
  stays : ∃ slot < 256, Stays space slot s t
  wf : Wf t.tables space
  small : ∀ r < 2 ^ 27, ∀ base, absRegion t.tables space r ≠ .huge base
  alike : Alike space t ⟨tables', t.pmm⟩
  words : ∀ f i, tables' f i < 2 ^ 64

section Followed

variable (h : m.Inv mmap) (hspace : space ∈ m.spaces) (hf : Followed m space s t tables')
include hf

/-- What memory then has in the user half is what was followed. -/
theorem Followed.userHalf_eq : userHalf tables' space = t.tables := by
  refine hf.alike.userHalf_eq fun i hi => ?_
  obtain ⟨slot, hslot, hstays⟩ := hf.stays
  rw [hstays.entry i (Or.inl (by omega)), hf.start, userHalf_of_kernel hi]

include h hspace

/-- **The other address spaces keep their tables.** -/
theorem Followed.others {r : ℕ} (hr : r ∈ m.spaces) (hne : r ≠ space) {f : ℕ}
    (hfr : Under link (userHalf m.tables r) r 3 f) : tables' f = m.tables f := by
  obtain ⟨slot, -, hstays⟩ := hf.stays
  have huse : m.Uses f (.table r) := .table hr hfr
  have hother : ¬ Under link s.tables space 3 f := by
    rw [hf.start]
    intro hc
    have hsame := h.sole.one f _ _ huse (.table hspace hc)
    exact hne (Use.table.inj hsame)
  have hpmm : f ∉ s.pmm := fun hc =>
    h.sole.taken f _ huse (hf.pages f hc ((h.wf r hr).under_ne_zero (h.ne_zero r hr) hfr))
  have hroot : f ≠ space := by
    rintro rfl
    exact hother (under_root _ _)
  funext i
  have hstep : tables' f i = t.tables f i := hf.alike.tables f i fun hc => absurd hc hroot
  rw [hstep, hstays.outside f hother hpmm, hf.start, userHalf_of_ne hroot]

theorem Followed.keepsHalf {r : ℕ} (hr : r ∈ m.spaces) (hne : r ≠ space) :
    KeepsHalf m.tables tables' r :=
  h.kept hr hf.words fun _ hfr i _ => congrFun (hf.others h hspace hr hne hfr) i

/-- **What is in use after the call**: what was, and new tables and user
pages of the one address space. -/
theorem Followed.uses (hu : Uses tables' m.spaces m.blocks a use) :
    m.Uses a use ∨
      (use = .table space ∧ a ∈ s.pmm ∧ Under link t.tables space 3 a) ∨
      ∃ virt, UserAddr virt ∧ vmmGetPhys t.tables space virt ≠ 0 ∧
        a = frameOfPhys (vmmGetPhys t.tables space virt) ∧ use = .page space (pageOf virt) := by
  cases hu with
  | @table r f hr hfr =>
    by_cases hne : r = space
    · subst hne
      obtain ⟨slot, -, hstays⟩ := hf.stays
      rw [hf.userHalf_eq] at hfr
      obtain hold | hnew := hstays.under a hfr
      · rw [hf.start] at hold
        exact Or.inl (.table hr hold)
      · exact Or.inr (Or.inl ⟨rfl, hnew, hfr⟩)
    · exact Or.inl (.table hr ((hf.keepsHalf h hspace hr hne).under a hfr))
  | @page r virt hr hv hmapped =>
    by_cases hne : r = space
    · subst hne
      have hwf : Wf (userHalf tables' r) r := hf.userHalf_eq ▸ hf.wf
      have hget : vmmGetPhys tables' r virt = vmmGetPhys t.tables r virt := by
        rw [vmmGetPhys_userHalf hwf hv, hf.userHalf_eq]
      rw [hget] at hmapped ⊢
      exact Or.inr (Or.inr ⟨virt, hv, hmapped, rfl, rfl⟩)
    · exact Or.inl ((hf.keepsHalf h hspace hr hne).usesPage hr hv hmapped)
  | block hblock hk => exact Or.inl (.block hblock hk)

/-- **The invariant after the call**, once every page has one use. -/
theorem Followed.callFor (hshrinks : Pmm.Shrinks m.pmm p')
    (hsole : SoleUse (Uses tables' m.spaces m.blocks) (Pmm.Available p')) :
    m.CallFor mmap space p' tables' := by
  refine ⟨⟨hshrinks.layout.trans h.layout, hf.words, h.kernel, h.ne_zero, fun r hr => ?_,
    fun r hr => ?_, hsole⟩, fun r hr hne => (hf.keepsHalf h hspace hr hne).getPhys⟩
  · by_cases hne : r = space
    · subst hne
      exact hf.userHalf_eq ▸ hf.wf
    · exact (hf.keepsHalf h hspace hr hne).wf
  · by_cases hne : r = space
    · subst hne
      have hhalf : userHalf tables' r = t.tables := hf.userHalf_eq
      intro k hk base
      rw [hhalf]
      exact hf.small k hk base
    · intro k hk base
      rw [(hf.keepsHalf h hspace hr hne).regions]
      exact h.small r hr k hk base

end Followed

/-! ## What the calls take and write -/

/-- A table takes at most one page. -/
theorem getOrCreateTable_pmm (s : Mm) (t i : ℕ) :
    ∃ c ≤ 1, (getOrCreateTable s t i (ptPresent ||| ptWritable)).2.pmm = s.pmm.drop c := by
  obtain ⟨-, hr⟩ | ⟨-, hr⟩ | ⟨new, rest, -, -, hpmm, hr⟩ := getOrCreateTable_cases s t i
  · exact ⟨0, Nat.zero_le 1, congrArg (fun r => r.2.pmm) hr⟩
  · exact ⟨1, le_rfl, (congrArg (fun r => r.2.pmm) hr).trans List.drop_one.symm⟩
  · exact ⟨1, le_rfl, (congrArg (fun r => r.2.pmm) hr).trans (by rw [hpmm]; rfl)⟩

/-- **A mapping takes at most three.** -/
theorem vmmMapPage_pmm (s : Mm) (root virt phys flags : ℕ) :
    ∃ c ≤ 3, (vmmMapPage s root virt phys flags).2.pmm = s.pmm.drop c := by
  obtain ⟨c₁, hc₁, h₁⟩ := getOrCreateTable_pmm s root (pml4Index virt)
  unfold vmmMapPage
  simp only
  generalize getOrCreateTable s root (pml4Index virt) (ptPresent ||| ptWritable) = r₁ at *
  obtain ⟨c₂, hc₂, h₂⟩ := getOrCreateTable_pmm r₁.2 r₁.1 (pdptIndex virt)
  generalize getOrCreateTable r₁.2 r₁.1 (pdptIndex virt) (ptPresent ||| ptWritable) = r₂ at *
  obtain ⟨c₃, hc₃, h₃⟩ := getOrCreateTable_pmm r₂.2 r₂.1 (pdIndex virt)
  generalize getOrCreateTable r₂.2 r₂.1 (pdIndex virt) (ptPresent ||| ptWritable) = r₃ at *
  rw [h₁, List.drop_drop] at h₂
  rw [h₂, List.drop_drop] at h₃
  split
  · exact ⟨c₁, by omega, h₁⟩
  · split
    · exact ⟨c₁ + c₂, by omega, h₂⟩
    · split
      · exact ⟨c₁ + c₂ + c₃, by omega, h₃⟩
      · refine ⟨c₁ + c₂ + c₃, by omega, ?_⟩
        split
        · exact h₃
        · exact h₃

theorem put_word (h : ∀ f j, s.tables f j < 2 ^ 64) {i e : ℕ} (he : e < 2 ^ 64) (u f j : ℕ) :
    (s.put u i e).tables f j < 2 ^ 64 := by
  by_cases hc : f = u ∧ j = i
  · obtain ⟨rfl, rfl⟩ := hc
    exact (set_self ..).trans_lt he
  · exact (set_of_ne hc).trans_lt (h f j)

theorem getOrCreateTable_word (h : ∀ f j, s.tables f j < 2 ^ 64) (u i f j : ℕ) :
    (getOrCreateTable s u i (ptPresent ||| ptWritable)).2.tables f j < 2 ^ 64 := by
  obtain ⟨-, hr⟩ | ⟨-, hr⟩ | ⟨new, rest, -, -, -, hr⟩ := getOrCreateTable_cases s u i
  · rw [show getOrCreateTable s u i _ = _ from hr]
    exact h f j
  · rw [show getOrCreateTable s u i _ = _ from hr]
    exact h f j
  · rw [show getOrCreateTable s u i _ = _ from hr]
    refine put_word (s := ⟨Function.update s.tables new fun _ => 0, rest⟩) (fun f j => ?_)
      (Nat.or_lt_two_pow (sub64_lt _ _) (by decide)) u f j
    by_cases hf : f = new
    · subst hf
      simp only [Function.update_self]
      exact Nat.two_pow_pos 64
    · simp only [Function.update_of_ne hf]
      exact h f j

/-- **What a mapping writes are words.** -/
theorem vmmMapPage_word (h : ∀ f j, s.tables f j < 2 ^ 64) (hflags : flags < 2 ^ 64)
    (root f j : ℕ) : (vmmMapPage s root virt phys flags).2.tables f j < 2 ^ 64 := by
  have h₁ := getOrCreateTable_word h root (pml4Index virt)
  unfold vmmMapPage
  simp only
  generalize getOrCreateTable s root (pml4Index virt) (ptPresent ||| ptWritable) = r₁ at *
  have h₂ := getOrCreateTable_word h₁ r₁.1 (pdptIndex virt)
  generalize getOrCreateTable r₁.2 r₁.1 (pdptIndex virt) (ptPresent ||| ptWritable) = r₂ at *
  have h₃ := getOrCreateTable_word h₂ r₂.1 (pdIndex virt)
  generalize getOrCreateTable r₂.2 r₂.1 (pdIndex virt) (ptPresent ||| ptWritable) = r₃ at *
  split
  · exact h₁ f j
  · split
    · exact h₂ f j
    · split
      · exact h₃ f j
      · refine put_word ?_ (pageEntry_lt phys hflags) _ f j
        split
        · exact put_word h₃ (Nat.two_pow_pos 64) _
        · exact h₃

/-- Unmapping takes no page and writes words, whatever the allocator holds. -/
theorem vmmUnmapPage_list (tables : Tables ℕ) (pmm : List ℕ) (root virt : ℕ) :
    vmmUnmapPage ⟨tables, pmm⟩ root virt = ⟨(vmmUnmapPage ⟨tables, []⟩ root virt).tables, pmm⟩ := by
  simp only [vmmUnmapPage, Mm.put]
  split_ifs
  · rfl
  · rfl
  · rfl
  · rfl
  · rfl

theorem vmmUnmapPage_word (h : ∀ f j, s.tables f j < 2 ^ 64) (root virt f j : ℕ) :
    (vmmUnmapPage s root virt).tables f j < 2 ^ 64 := by
  unfold vmmUnmapPage
  simp only
  split_ifs
  · exact h f j
  · exact h f j
  · exact h f j
  · exact put_word h (Nat.two_pow_pos 64) _ f j
  · exact put_word h (Nat.two_pow_pos 64) _ f j

/-! ## Unmapping -/

/-- What is left of a region after an unmapping is no huge page. -/
theorem vmmUnmapPage_small {root : ℕ} (h : Wf s.tables root)
    (hsmall : ∀ r < 2 ^ 27, ∀ base, absRegion s.tables root r ≠ .huge base) (virt : ℕ) :
    ∀ r < 2 ^ 27, ∀ base, absRegion (vmmUnmapPage s root virt).tables root r ≠ .huge base := by
  intro r hr base hc
  rw [(vmmUnmapPage_refines h virt).2 r hr] at hc
  simp only [Space.step, Bool.not_true, Bool.false_eq_true, if_false, Function.update_apply] at hc
  split at hc
  · cases hregion : absRegion s.tables root (regionOf virt) with
    | empty =>
      rw [hregion] at hc
      cases hc
    | huge base' => exact hsmall _ (regionOf_lt virt) base' hregion
    | table frames =>
      rw [hregion] at hc
      cases hc
  · exact hsmall r hr base hc

/-- **`vmm_unmap_page`** puts nothing to use. -/
theorem Memory.Inv.unmapPage (h : m.Inv mmap) (hspace : space ∈ m.spaces) (hv : UserAddr virt) :
    m.CallFor mmap space m.pmm (vmmUnmapPage ⟨m.tables, []⟩ space virt).tables := by
  have hwf := h.wf space hspace
  have halike := (alike_userHalf m.tables space []).unmapPage hwf hv
  have hf : Followed m space ⟨userHalf m.tables space, []⟩
      (vmmUnmapPage ⟨userHalf m.tables space, []⟩ space virt)
      (vmmUnmapPage ⟨m.tables, []⟩ space virt).tables := by
    refine ⟨rfl, fun a ha => absurd ha List.not_mem_nil,
      ⟨pml4Index virt, hv, vmmUnmapPage_stays hwf virt⟩, (vmmUnmapPage_refines hwf virt).1,
      vmmUnmapPage_small hwf (h.small space hspace) virt, ⟨rfl, halike.tables⟩,
      vmmUnmapPage_word h.words space virt⟩
  refine hf.callFor h hspace (Pmm.Shrinks.refl m.pmm) ?_
  refine h.sole.mono (fun _ hfree => hfree) ?_
  intro a use hu
  obtain hold | ⟨-, hnew, -⟩ | ⟨virt', hv', hmapped, ha, huse⟩ := hf.uses h hspace hu
  · exact hold
  · cases hnew
  · obtain hz | hsame := vmmUnmapPage_translate (s := ⟨userHalf m.tables space, []⟩) hwf virt virt'
    · exact absurd hz hmapped
    · rw [ha, huse]
      rw [hsame, ← vmmGetPhys_userHalf hwf hv'] at hmapped ⊢
      exact .page hspace hv' hmapped

/-- The rollback. -/
theorem Memory.Inv.rollback (h : m.Inv mmap) (hspace : space ∈ m.spaces) {v n : ℕ}
    (hv : ∀ j < n, UserAddr (nthPage v j)) (pmm : List ℕ) :
    (rollback ⟨m.tables, pmm⟩ space v n).pmm = pmm ∧
      m.CallFor mmap space m.pmm (Vmm.rollback ⟨m.tables, pmm⟩ space v n).tables := by
  induction n with
  | zero => exact ⟨rfl, h.callFor (Pmm.Shrinks.refl m.pmm) space⟩
  | succ n ih =>
    obtain ⟨hpmm, hcall⟩ := ih fun j hj => hv j (by omega)
    have hstep := hcall.trans (hcall.inv.unmapPage hspace (hv n (Nat.lt_succ_self n)))
    rw [rollback_succ]
    generalize Vmm.rollback ⟨m.tables, pmm⟩ space v n = t at *
    obtain ⟨tables', pmm'⟩ := t
    rw [vmmUnmapPage_list]
    exact ⟨hpmm, hstep⟩

/-! ## Mapping -/

/-- The frame that an entry made for a page leads to is the page. -/
theorem frameOfPhys_leaf {off : ℕ} (hlt : page < 2 ^ 64) (hphys : virtToPhys page < 2 ^ 52)
    (hal : virtToPhys page % pageSize = 0) (hflags : flags < 2 ^ 12) (hoff : off < pageSize)
    (hne : (leafFrame ((virtToPhys page &&& pageMask) ||| flags)).elim 0 (· + off) ≠ 0) :
    frameOfPhys ((leafFrame ((virtToPhys page &&& pageMask) ||| flags)).elim 0 (· + off)) =
      page := by
  have hback : physToVirt (virtToPhys page) = page := add64_sub64_cancel hlt
  generalize virtToPhys page = phys at *
  by_cases hpres : isPresent ((phys &&& pageMask) ||| flags) = true
  · have hflag : flags.testBit 0 = true := by
      rw [land_pageMask (by omega), isPresent_eq, pageSize, show 4096 = 2 ^ 12 from rfl,
        testBit_two_pow_mul_lor hflags (by decide)] at hpres
      exact hpres
    have hround : roundTo pageSize (phys + off) = phys := by
      simp only [roundTo, pageSize] at *
      omega
    have hself : roundTo pageSize phys = phys := by
      simp only [roundTo, pageSize] at *
      omega
    rw [leafFrame, if_pos hpres, (pageEntry_spec hphys hflags hflag).2.1, hself, Option.elim_some,
      frameOfPhys, hround, hback]
  · rw [leafFrame, if_neg hpres] at hne
    exact absurd rfl hne

section MapPage

variable {k : ℕ} (hok : Pmm.MapOk mmap) (h : m.Inv mmap)
  (hspace : space ∈ m.spaces)
include hok h

/-- What the allocator answers is fresh to every user half. -/
theorem Memory.Inv.fresh (hspace : space ∈ m.spaces) (hp : Pmm.Shrinks m.pmm p) (k : ℕ) :
    Fresh ⟨userHalf m.tables space, answers Pmm.pmmAllocPage k p⟩ space := by
  have hlay := hp.layout.trans h.layout
  have hfree : ∀ a ∈ answers Pmm.pmmAllocPage k p, a ≠ 0 → Pmm.Available p a := fun a ha hne =>
    (Pmm.answers_available hok hlay ha hne).1
  refine ⟨fun a ha hne => ?_, fun a ha hne hu => ?_, Pmm.answers_once hok hlay k⟩
  · obtain ⟨hlt, hal, -, -⟩ := (hfree a ha hne).addr hok hlay
    exact ⟨hne, hlt, hal⟩
  · exact h.sole.taken a _ (.table hspace hu) (hp.available a (hfree a ha hne))

include hspace

section Allocated

variable (hfirst : Pmm.Shrinks m.pmm p) (hav : Pmm.Available m.pmm page)
  (hgone : ¬ Pmm.Available p page) (hflags : flags < 2 ^ 12) (hv : UserAddr virt)
include hfirst hflags hv

omit hav hgone in
/-- A mapping, followed on the user half. -/
theorem Memory.Inv.followed (phys : ℕ) :
    Followed m space ⟨userHalf m.tables space, answers Pmm.pmmAllocPage k p⟩
      (vmmMapPage ⟨userHalf m.tables space, answers Pmm.pmmAllocPage k p⟩ space virt phys flags).2
      (vmmMapPage ⟨m.tables, answers Pmm.pmmAllocPage k p⟩ space virt phys flags).2.tables := by
  have hlay := hfirst.layout.trans h.layout
  have hwf := h.wf space hspace
  have hfresh := h.fresh hok hspace hfirst k
  have hnh := h.small space hspace _ (regionOf_lt virt)
  have hflags' : flags < 2 ^ 64 := hflags.trans (by decide)
  have halike := ((alike_userHalf m.tables space (answers Pmm.pmmAllocPage k p)).mapPage phys flags
    hwf hfresh hnh hv).2
  obtain ⟨hwf', hregions⟩ := vmmMapPage_regions hwf hfresh (pageEntry_lt phys hflags') hnh
  refine ⟨rfl, fun a ha hne => ?_, ⟨pml4Index virt, hv, vmmMapPage_stays hwf hfresh hnh⟩, hwf', ?_,
    ⟨rfl, halike.tables⟩, vmmMapPage_word h.words hflags' space⟩
  · exact hfirst.available a (Pmm.answers_available hok hlay ha hne).1
  · intro r hr base hc
    rw [hregions r hr] at hc
    split at hc
    · cases hc
    · exact h.small space hspace r hr base hc

include hav

/-- **What a mapping puts to use**: tables, out of the pages it takes, and
the page it was given. -/
theorem Memory.Inv.mapPage_uses {c : ℕ} (hc : c ≤ k)
    (hpmm : (vmmMapPage ⟨userHalf m.tables space, answers Pmm.pmmAllocPage k p⟩ space virt
      (virtToPhys page) flags).2.pmm =
        answers Pmm.pmmAllocPage (k - c) (afterPages Pmm.pmmAllocPage c p))
    (hu : Vmm.Uses (vmmMapPage ⟨m.tables, answers Pmm.pmmAllocPage k p⟩ space virt
      (virtToPhys page) flags).2.tables m.spaces m.blocks a use) :
    m.Uses a use ∨
      (use = .table space ∧ Pmm.Available p a ∧
        ¬ Pmm.Available (afterPages Pmm.pmmAllocPage c p) a) ∨
      (use = .page space (pageOf virt) ∧ a = page) := by
  have hlay := hfirst.layout.trans h.layout
  have hf := h.followed (k := k) hok hspace hfirst hflags hv (virtToPhys page)
  have hwf := h.wf space hspace
  have hfresh := h.fresh hok hspace hfirst k
  have hnh := h.small space hspace _ (regionOf_lt virt)
  have hflags' : flags < 2 ^ 64 := hflags.trans (by decide)
  obtain hold | ⟨huse, hnew, hunder⟩ | ⟨virt', hv', hmapped, ha, huse⟩ := hf.uses h hspace hu
  · exact Or.inl hold
  · -- a table that was linked is not answered again
    obtain ⟨slot, -, hstays⟩ := hf.stays
    have hne : a ≠ 0 := hf.wf.under_ne_zero (h.ne_zero space hspace) hunder
    have hrest : a ∉ answers Pmm.pmmAllocPage (k - c) (afterPages Pmm.pmmAllocPage c p) :=
      fun hc' => (hstays.fresh hfresh).unused a (hpmm ▸ hc') hne hunder
    exact Or.inr (Or.inl ⟨huse, (Pmm.answers_available hok hlay hnew hne).1,
      Pmm.not_available_of_consumed hok hlay hc hnew hrest hne⟩)
  · rw [vmmMapPage_translate hwf hfresh (pageEntry_lt _ hflags') hnh] at hmapped ha
    split at hmapped
    · rename_i hnewpage
      obtain ⟨hlt, -, hphys, hal⟩ := hav.addr hok h.layout
      rw [if_pos hnewpage, frameOfPhys_leaf hlt hphys hal hflags (Nat.mod_lt _ (by decide))
        hmapped] at ha
      rw [hnewpage.2] at huse
      exact Or.inr (Or.inr ⟨huse, ha⟩)
    · rename_i hother
      rw [if_neg hother] at ha
      rw [ha, huse]
      rw [← vmmGetPhys_userHalf hwf hv'] at hmapped ⊢
      exact Or.inl (.page hspace hv' hmapped)

include hgone

/-- **`vmm_map_page` of a page that was just allocated**, with what the
allocator answers next. -/
theorem Memory.Inv.mapPage (hk : 3 ≤ k) :
    let r := vmmMapPage ⟨m.tables, answers Pmm.pmmAllocPage k p⟩ space virt (virtToPhys page) flags
    ∃ c ≤ 3, r.2.pmm = answers Pmm.pmmAllocPage (k - c) (afterPages Pmm.pmmAllocPage c p) ∧
      m.CallFor mmap space (afterPages Pmm.pmmAllocPage c p) r.2.tables := by
  have hlay := hfirst.layout.trans h.layout
  have hf := h.followed (k := k) hok hspace hfirst hflags hv (virtToPhys page)
  have halike := ((alike_userHalf m.tables space (answers Pmm.pmmAllocPage k p)).mapPage
    (virtToPhys page) flags (h.wf space hspace) (h.fresh hok hspace hfirst k)
    (h.small space hspace _ (regionOf_lt virt)) hv).2
  obtain ⟨c, hc, hdrop⟩ := vmmMapPage_pmm ⟨m.tables, answers Pmm.pmmAllocPage k p⟩ space virt
    (virtToPhys page) flags
  have hpmm := hdrop.trans (Pmm.answers_drop (hc.trans hk) p)
  have huses := fun (a : ℕ) (use : Use) (hu : Vmm.Uses _ m.spaces m.blocks a use) =>
    h.mapPage_uses hok hspace hfirst hav hflags hv (hc.trans hk) (halike.pmm.symm.trans hpmm) hu
  have hafter := Pmm.afterPages_shrinks hok hlay c
  refine ⟨c, hc, hpmm, hf.callFor h hspace (hfirst.trans hafter) ?_⟩
  refine h.sole.step (hfirst.trans hafter).available (fun a use hu => ?_) ?_
  · obtain hold | ⟨-, hfree, hused⟩ | ⟨-, ha⟩ := huses a use hu
    · exact Or.inl hold
    · exact Or.inr ⟨hfirst.available a hfree, hused⟩
    · rw [ha]
      exact Or.inr ⟨hav, fun hc' => hgone (hafter.available page hc')⟩
  · intro a use use' hfree hu hu'
    have hnew : ¬ m.Uses a use ∧ ¬ m.Uses a use' :=
      ⟨fun hc' => h.sole.taken a _ hc' hfree, fun hc' => h.sole.taken a _ hc' hfree⟩
    -- the page was not free when the tables were taken
    obtain ⟨huse, hfree₁, -⟩ | ⟨huse, ha⟩ := (huses a use hu).resolve_left hnew.1
    · obtain ⟨huse', -⟩ | ⟨-, ha'⟩ := (huses a use' hu').resolve_left hnew.2
      · exact huse.trans huse'.symm
      · exact absurd (ha' ▸ hfree₁) hgone
    · obtain ⟨-, hfree₁, -⟩ | ⟨huse', -⟩ := (huses a use' hu').resolve_left hnew.2
      · exact absurd (ha ▸ hfree₁) hgone
      · exact huse.trans huse'.symm

end Allocated

end MapPage

/-- The loop on the allocator's next answer. -/
theorem mapPagesFrom_cons {tables : Tables ℕ} {rest taken : List ℕ} (root v flags n i : ℕ) :
    mapPagesFrom root v flags (n + 1) i ⟨tables, page :: rest⟩ taken =
      if page = 0 then ⟨false, rollback ⟨tables, rest⟩ root v i, taken, []⟩
      else
        let r := vmmMapPage ⟨tables, rest⟩ root (nthPage v i) (virtToPhys page) flags
        if !r.1 then ⟨false, r.2, page :: taken, []⟩
        else mapPagesFrom root v flags n (i + 1) r.2 (page :: taken) := rfl

/-- **The loop of `vmm_map_pages`**: a page and at most three tables for
each address, or the way back. -/
theorem Memory.Inv.mapPagesFrom (hok : Pmm.MapOk mmap) {v n k i : ℕ} (h : m.Inv mmap)
    (hspace : space ∈ m.spaces) (hflags : flags < 2 ^ 12) (hk : 4 * n ≤ k)
    (hv : ∀ j < i + n, UserAddr (nthPage v j)) (taken : List ℕ) :
    let r := Vmm.mapPagesFrom space v flags n i ⟨m.tables, answers Pmm.pmmAllocPage k m.pmm⟩ taken
    ∃ c ≤ k, r.mm.pmm = answers Pmm.pmmAllocPage (k - c) (afterPages Pmm.pmmAllocPage c m.pmm) ∧
      m.CallFor mmap space (afterPages Pmm.pmmAllocPage c m.pmm) r.mm.tables := by
  induction n generalizing m i taken k with
  | zero => exact ⟨0, Nat.zero_le k, rfl, h.callFor (Pmm.Shrinks.refl m.pmm) space⟩
  | succ n ih =>
    obtain ⟨k, rfl⟩ : ∃ k', k = k' + 1 := ⟨k - 1, by omega⟩
    have hfirst := (Pmm.pmmAllocPage_grants hok h.layout).shrinks
    simp only [answers, mapPagesFrom_cons]
    by_cases hpage : (Pmm.pmmAllocPage m.pmm).2 = 0
    · simp only [if_pos hpage]
      have htaken := h.callFor hfirst space
      obtain ⟨hpmm, hcall⟩ := htaken.inv.rollback hspace (v := v) (n := i)
        (fun j hj => hv j (by omega)) (answers Pmm.pmmAllocPage k (Pmm.pmmAllocPage m.pmm).1)
      exact ⟨1, by omega, hpmm, htaken.trans hcall⟩
    · simp only [if_neg hpage]
      obtain ⟨hav, hgone⟩ := Pmm.pmmAllocPage_page hok h.layout hpage
      obtain ⟨c, hc, hpmm, hcall⟩ := h.mapPage (k := k) hok hspace hfirst hav hgone hflags
        (hv i (by omega)) (by omega)
      generalize vmmMapPage ⟨m.tables, answers Pmm.pmmAllocPage k (Pmm.pmmAllocPage m.pmm).1⟩ space
        (nthPage v i) (virtToPhys (Pmm.pmmAllocPage m.pmm).2) flags = r at *
      obtain ⟨ok, tables', pmm'⟩ := r
      obtain rfl : pmm' = _ := hpmm
      cases ok with
      | false => exact ⟨c + 1, by omega, by rw [Nat.add_sub_add_right]; rfl, hcall⟩
      | true =>
        obtain ⟨d, hd, hpmm, hrest⟩ := ih hcall.inv hspace (k := k - c) (i := i + 1) (by omega)
          (fun j hj => hv j (by omega)) ((Pmm.pmmAllocPage m.pmm).2 :: taken)
        refine ⟨c + d + 1, by omega, ?_, ?_⟩
        · rw [Nat.add_sub_add_right, Nat.sub_add_eq, afterPages, Pmm.afterPages_add]
          exact hpmm
        · rw [afterPages, Pmm.afterPages_add]
          exact hcall.trans hrest

/-- **`vmm_map_pages`** takes the answers it asked for. -/
theorem Memory.Inv.mapPages (hok : Pmm.MapOk mmap) {count : ℕ} (h : m.Inv mmap)
    (hop : m.Permitted (.mapPages space virt count flags)) :
    let m' := privateStep mmap m (.mapPages space virt count flags)
    m.CallFor mmap space m'.pmm m'.tables := by
  obtain ⟨hspace, hflags, hv⟩ := hop
  obtain ⟨c, hc, hpmm, hcall⟩ := h.mapPagesFrom hok (k := 4 * count) (i := 0) hspace hflags le_rfl
    (fun j hj => hv j (by omega)) []
  have hcount : 4 * count - (vmmMapPages ⟨m.tables, answers Pmm.pmmAllocPage (4 * count) m.pmm⟩
      space virt count flags).mm.pmm.length = c := by
    rw [vmmMapPages, hpmm, Pmm.answers_length]
    omega
  simp only [Memory.step, Pmm.privateBitmaps_allocPage, hcount]
  exact hcall

end Vmm

end Kos
