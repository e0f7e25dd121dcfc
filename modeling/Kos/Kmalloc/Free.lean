import Kos.Kmalloc.Conservation
import Kos.Common.Linked
import Kos.Pmm.Backing
import Kos.Pmm.Supply
/-!
# Kmalloc — freeing twice, and freeing large blocks

`kfree` decides from the header below the pointer. It does not take the
mark off an object it frees, so a pointer freed a second time passes for
a live one: its object is linked to a list it is on already, and the
list becomes a cycle. A large block has no header, and what `kfree` reads
below it is whatever ends the page before: it asks for its pages to be
freed only if that looks like the header of a large object of the right
length. And the page allocator, asked, frees none of them: it looks up
the page number of the pointer, and takes the bit of a page that is used
for a double free.
-/

namespace Kos

namespace Kmalloc

variable {w : World} {free : Fin 8 → List ℕ} {i j : Fin 8} {o size answer : ℕ} {b : Block}

/-! ## Freeing twice -/

/-- **What `kfree` passes over**: `NULL`, a pointer with no mark below it,
and one whose header says that it is large. -/
def Ignored (h : Heap) (ptr : ℕ) : Prop :=
  ptr = 0 ∨ h.mem.load (ptr - headerSize + 8) 4 ≠ liveMagic ∨
    kmallocMaxSize < h.mem.load (ptr - headerSize + 12) 4

theorem Ignored.kfree_eq {h : Heap} {ptr : ℕ} (hi : Ignored h ptr) : (kfree h ptr).1 = h := by
  unfold Kmalloc.kfree
  by_cases h0 : ptr = 0
  · rw [if_pos h0]
  · rw [if_neg h0]
    simp only
    by_cases hm : h.mem.load (ptr - headerSize + 8) 4 ≠ liveMagic
    · rw [if_pos hm]
    · rw [if_neg hm, if_pos ((hi.resolve_left h0).resolve_left hm)]

/-- An object that was handed out is not passed over. -/
theorem Marked.not_ignored {h : Heap} (hm : Marked h.mem i o) :
    ¬ Ignored h (o + headerSize) := by
  have hle := sizes_le i
  rintro (h0 | hmagic | hsize)
  · simp only [headerSize] at h0
    omega
  · exact hmagic (by rw [Nat.add_sub_cancel]; exact hm.magic)
  · rw [Nat.add_sub_cancel, hm.size] at hsize
    omega

/-- Forgetting some live blocks. -/
theorem Inv.forget (h : Inv w free) (p : Block → Bool) :
    Inv { w with live := w.live.filter p } free where
  regions := h.regions
  size_eq := h.size_eq
  unused := h.unused
  chain := h.chain
  free_object := h.free_object
  free_nodup := h.free_nodup
  small b hb := h.small b (List.mem_of_mem_filter hb)
  large b hb := h.large b (List.mem_of_mem_filter hb)
  distinct := h.distinct.sublist List.filter_sublist

/-- The world, and the pointers freed and not handed out since. -/
structure Ledger where
  world : World
  freed : List ℕ

/-- One step, with the pointers freed kept. -/
def Ledger.step (l : Ledger) (op : Op) : Ledger where
  world := l.world.step op
  freed :=
    match op with
    | .kfree ptr => ptr :: l.freed
    | op =>
      match l.world.returned op with
      | some b => l.freed.filter fun p => p ≠ b.ptr
      | none => l.freed

/-- The ledger before the first call. -/
def Ledger.boot (mem : ByteMem) : Ledger := ⟨World.boot mem, []⟩

/-- **What a step may do**: pages are fresh, a pointer that is freed is live
or was freed before, and writes reach no header. -/
def Op.MayRefree (l : Ledger) : Op → Prop
  | .kmalloc size answer => AnswerOk l.world size.toNat answer
  | .kzalloc _ _ => False
  | .kfree ptr => (∃ b ∈ l.world.live, b.ptr = ptr) ∨ ptr ∈ l.freed
  | .write addr _ => ∀ i o, Object l.world.regions i o → addr < o ∨ o + headerSize ≤ addr

/-- The block of a small request may start where its page ends: an object
of 16 bytes is all header. It must not start where a large block does. -/
def StartsApart (w : World) (size answer : ℕ) : Prop :=
  ∀ b ∈ w.live,
    (useOf size = .large → b.use = .slab 0 → b.ptr ≠ answer) ∧
    (useOf size = .slab 0 → b.use = .large →
      b.ptr ≠ ((ready w.heap).slabs 0).freeList + headerSize)

/-- **What goes well**: only live small blocks are freed, unless `kfree`
passes the pointer over, and blocks start apart. -/
def Op.FreesOnce (w : World) : Op → Prop
  | .kmalloc size answer => StartsApart w size.toNat answer
  | .kfree ptr => (∃ b ∈ w.live, b.ptr = ptr ∧ b.use ≠ .large) ∨ Ignored w.heap ptr
  | _ => True

/-- **A pointer that was freed** is that of a marked object on its free
list, or of pages that were not taken back. -/
def Freed (w : World) (free : Fin 8 → List ℕ) (p : ℕ) : Prop :=
  (∃ i, ∃ o ∈ free i, p = o + headerSize ∧ Marked w.heap.mem i o) ∨
    ∃ r ∈ w.regions, r.use = .large ∧ r.ptr = p

/-- The invariant of a ledger. -/
structure Settled (l : Ledger) (free : Fin 8 → List ℕ) : Prop where
  inv : Inv l.world free
  apart : l.world.live.Pairwise fun b b' => b.ptr ≠ b'.ptr
  freed : ∀ p ∈ l.freed, Freed l.world free p
  gone : ∀ p ∈ l.freed, ∀ b ∈ l.world.live, b.ptr ≠ p

theorem sizes_ge_of_ne : ∀ i, i ≠ 0 → 32 ≤ sizes i := by decide

/-- A block of more than 16 bytes starts inside its page, away from every
large block. -/
theorem Inv.small_ne_large {b b' : Block} (h : Inv w free) (hb : b ∈ w.live) (hb' : b' ∈ w.live)
    (hu : b.use = .slab i) (hi : i ≠ 0) (hu' : b'.use = .large) : b.ptr ≠ b'.ptr := by
  intro heq
  obtain ⟨o, hp, hobj, -⟩ := h.small b hb i hu
  obtain ⟨r, hr, hru, hlo, hhi⟩ := h.regions.object_inside hobj
  obtain ⟨r', hr', hru', hrp', -⟩ := h.large b' hb' hu'
  have hpos := h.regions.pages_pos r' hr'
  have hap : r.Apart r' := h.regions.apart_of_use hr hr' (by rw [hru, hru']; simp)
  have hge := sizes_ge_of_ne i hi
  simp only [Region.Apart, Region.stop, headerSize, pageSize] at *
  omega

/-- **A new block starts apart from the live ones.** -/
theorem Inv.served_apart {w' : World} {free' : Fin 8 → List ℕ} (h : Inv w free)
    (hi : w.heap.initialized = true) (hs : Served w free size answer w' free')
    (hap : StartsApart w size answer)
    (hne : w.live.Pairwise fun b b' => b.ptr ≠ b'.ptr) :
    w'.live.Pairwise fun b b' => b.ptr ≠ b'.ptr := by
  have hinv := h.of_served hi hs
  have hready : Kmalloc.ready w.heap = w.heap := if_pos hi
  -- two blocks of one kind are told apart by the invariant, a large one and one of
  -- 16 bytes by the condition, and a large one and a longer small one by their pages
  have hnew : ∀ c : Block, c.use = useOf size → w'.live = c :: w.live →
      (useOf size = .large → c.ptr = answer) →
      (useOf size = .slab 0 → ∀ b ∈ w.live, b.use = .large → c.ptr ≠ b.ptr) →
      w'.live.Pairwise fun b b' => b.ptr ≠ b'.ptr := by
    intro c hcu hlive hlarge hsmall
    have hd := hinv.distinct
    have hc : c ∈ w'.live := by
      rw [hlive]
      exact List.mem_cons_self
    rw [hlive, List.pairwise_cons] at hd ⊢
    refine ⟨?_, hne⟩
    intro b hb heq
    have hb' : b ∈ w'.live := by
      rw [hlive]
      exact List.mem_cons_of_mem c hb
    cases hu : useOf size with
    | large =>
      rw [hu] at hcu
      cases hbu : b.use with
      | large => exact hd.1 b hb (by simp [hcu, hbu]) heq
      | slab j =>
        by_cases hj : j = 0
        · subst hj
          exact (hap b hb).1 hu hbu (heq.symm.trans (hlarge hu))
        · exact hinv.small_ne_large hb' hc hbu hj hcu heq.symm
    | slab j =>
      rw [hu] at hcu
      cases hbu : b.use with
      | slab k => exact hd.1 b hb (by simp [hcu, hbu]) heq
      | large =>
        by_cases hj : j = 0
        · subst hj
          exact hsmall hu b hb hbu heq
        · exact hinv.small_ne_large hc hb' hcu hj hbu heq
  cases hs with
  | refused => exact hne
  | large mem' pages hsize hf hfit hm =>
    refine hnew ⟨answer, size, .large⟩ hsize.symm rfl (fun _ => rfl) ?_
    intro hu
    rw [hsize] at hu
    cases hu
  | take i o rest hsize hfree =>
    refine hnew ⟨o + headerSize, size, .slab i⟩ hsize.symm rfl ?_ ?_
    · intro hu
      rw [hsize] at hu
      cases hu
    · intro hu b hb hbu heq
      obtain rfl : i = 0 := Use.slab.inj (hsize.symm.trans hu)
      refine (hap b hb).2 hu hbu ?_
      rw [hready, h.freeList_eq hfree]
      exact heq.symm
  | carve i rest hsize hnil hf hslots =>
    refine hnew ⟨answer + headerSize, size, .slab i⟩ hsize.symm rfl ?_ ?_
    · intro hu
      rw [hsize] at hu
      cases hu
    · -- the first object of a new page ends inside it
      intro hu b hb hbu heq
      obtain ⟨r, hr, -, hrp, -⟩ := h.large b hb hbu
      have hapart := hf.apart r hr
      have hpos := h.regions.pages_pos r hr
      simp only [Region.stop, headerSize, pageSize] at *
      omega

/-- A step on memory that leaves the headers alone leaves freed pointers
freed. -/
theorem Freed.congr {w' : World} {p : ℕ} (h : Freed w free p) (hinv : Inv w free)
    (hm : ∀ i o, Object w.regions i o → SameHeader w.heap.mem w'.heap.mem o)
    (hr : w'.regions = w.regions) : Freed w' free p := by
  rcases h with ⟨i, o, ho, hp, hmark⟩ | hlarge
  · exact Or.inl ⟨i, o, ho, hp, (hm i o (hinv.free_object i o ho)).marked hmark⟩
  · exact Or.inr (hr ▸ hlarge)

/-- What was freed stays freed when another object is taken. -/
theorem Freed.taken {p : ℕ} {rest : List ℕ} (h : Freed w free p) (hinv : Inv w free)
    (hfree : free i = o :: rest) (hp : p ≠ o + headerSize) :
    Freed (w.taken i o size) (Function.update free i rest) p := by
  rcases h with ⟨j, q, hq, rfl, hmark⟩ | hlarge
  · have hne : q ≠ o := fun heq => hp (by rw [heq])
    have ho : o ∈ free i := by
      rw [hfree]
      exact List.mem_cons_self
    refine Or.inl ⟨j, q, ?_, rfl, ?_⟩
    · by_cases hji : j = i
      · subst hji
        rw [hfree, List.mem_cons] at hq
        rw [Function.update_self]
        exact hq.resolve_left hne
      · rwa [Function.update_of_ne hji]
    · refine SameHeader.marked ?_ hmark
      simp only [World.taken, takeObject, hinv.freeList_eq hfree]
      exact take_sameHeader hinv.regions (hinv.free_object i o ho) (hinv.free_object j q hq)
        fun hc => hne hc.2.symm
  · exact Or.inr hlarge

/-- What was freed stays freed when a page is split. -/
theorem Freed.carved {p page : ℕ} (h : Freed w free p) (hinv : Inv w free)
    (hi : w.heap.initialized = true) (hnil : free i = []) (hf : Fresh w.regions page 1) :
    Freed (w.carved i page)
      (Function.update free i (slots page (sizes i) (pageSize / sizes i))) p := by
  rcases h with ⟨j, q, hq, rfl, hmark⟩ | ⟨r, hr, hrest⟩
  · refine Or.inl ⟨j, q, ?_, rfl, ?_⟩
    · have hji : j ≠ i := by
        rintro rfl
        rw [hnil] at hq
        cases hq
      rwa [Function.update_of_ne hji]
    · exact (hinv.carve_sameHeader hi hf (hinv.free_object j q hq)).marked hmark
  · exact Or.inr ⟨r, List.mem_cons_of_mem _ hr, hrest⟩

/-- **What was freed stays freed when a request is served**, unless its
pointer is the one handed out. -/
theorem Freed.of_served {w' : World} {free' : Fin 8 → List ℕ} {p : ℕ} (h : Freed w free p)
    (hinv : Inv w free) (hi : w.heap.initialized = true)
    (hs : Served w free size answer w' free')
    (hp : ∀ b, w'.live = b :: w.live → p ≠ b.ptr) : Freed w' free' p := by
  cases hs with
  | refused => exact h
  | large mem' pages hsize hf hfit hm =>
    rcases h with ⟨i, o, ho, hpo, hmark⟩ | ⟨r, hr, hrest⟩
    · refine Or.inl ⟨i, o, ho, hpo, ?_⟩
      exact (hf.sameHeader hinv.regions (hinv.free_object i o ho) hm).marked hmark
    · exact Or.inr ⟨r, List.mem_cons_of_mem _ hr, hrest⟩
  | take i o rest hsize hfree => exact h.taken hinv hfree (hp _ rfl)
  | carve i rest hsize hnil hf hslots =>
    have hcinv : Inv (w.carved i answer) _ := hinv.carve hi hnil hf
    exact (h.carved hinv hi hnil hf).taken hcinv (by rw [Function.update_self, hslots]) (hp _ rfl)

/-- A pointer stays freed when another object is put back, and the one
put back is freed. -/
theorem Freed.putBack {p : ℕ} {live : List Block} (h : Freed w free p ∨ p = o + headerSize)
    (hinv : Inv w free) (ho : Object w.regions i o) (hmark : Marked w.heap.mem i o) :
    Freed ⟨Kmalloc.putBack w.heap i o, w.regions, live⟩ (Function.update free i (o :: free i)) p := by
  -- the link is written below the mark
  have hown : Marked (Kmalloc.putBack w.heap i o).mem i o := by
    refine ⟨(ByteMem.load_store_of_disjoint ?_).trans hmark.magic,
      (ByteMem.load_store_of_disjoint ?_).trans hmark.size⟩ <;> omega
  have hself : Freed ⟨Kmalloc.putBack w.heap i o, w.regions, live⟩
      (Function.update free i (o :: free i)) (o + headerSize) := by
    refine Or.inl ⟨i, o, ?_, rfl, hown⟩
    rw [Function.update_self]
    exact List.mem_cons_self
  rcases h with (⟨j, q, hq, rfl, hqm⟩ | hlarge) | rfl
  · by_cases hqo : q = o
    · subst hqo
      exact hself
    · refine Or.inl ⟨j, q, ?_, rfl, ?_⟩
      · by_cases hji : j = i
        · subst hji
          rw [Function.update_self]
          exact List.mem_cons_of_mem o hq
        · rwa [Function.update_of_ne hji]
      · exact (hinv.putBack_sameHeader ho (hinv.free_object j q hq)
          fun hc => hqo hc.2.symm).marked hqm
  · exact Or.inr hlarge
  · exact hself

/-! ## Runs -/

/-- **What a request does to the ledger**: nothing that was freed is handed
out and still counts as freed. -/
theorem kmalloc_ledger (l : Ledger) (size : UInt64) (answer : ℕ) :
    ((l.step (.kmalloc size answer)).world.live = l.world.live ∧
      (l.step (.kmalloc size answer)).freed = l.freed) ∨
    ∃ b, (l.step (.kmalloc size answer)).world.live = b :: l.world.live ∧
      (l.step (.kmalloc size answer)).freed = l.freed.filter fun p => p ≠ b.ptr := by
  by_cases h0 : (kmalloc l.world.heap size.toNat answer).ptr = 0
  · refine Or.inl ⟨record_live_null l.world _ answer h0, ?_⟩
    simp only [Ledger.step, World.returned, if_pos h0]
  · refine Or.inr ⟨_, record_live l.world _ answer h0, ?_⟩
    simp only [Ledger.step, World.returned, if_neg h0]

/-- A request keeps the ledger settled. -/
theorem Settled.kmalloc {l : Ledger} {size : UInt64} (h : Settled l free)
    (hans : AnswerOk l.world size.toNat answer) (hap : StartsApart l.world size.toNat answer) :
    ∃ free', Settled (l.step (.kmalloc size answer)) free' := by
  obtain ⟨hr, hi⟩ := h.inv.ready
  obtain ⟨free', hs⟩ := h.inv.served hans size.toNat_lt
  have hidem : ready (ready l.world.heap) = ready l.world.heap := if_pos hi
  have hready : ∀ p, Freed l.world free p →
      Freed { l.world with heap := ready l.world.heap } free p := by
    intro p hp
    refine hp.congr h.inv ?_ rfl
    intro i o _ x _ _
    simp only [ready]
    split <;> rfl
  -- a pointer that still counts as freed is not the one handed out
  have hfreed : ∀ p ∈ (l.step (.kmalloc size answer)).freed, p ∈ l.freed ∧
      ∀ b, (l.step (.kmalloc size answer)).world.live = b :: l.world.live → p ≠ b.ptr := by
    intro p hp
    rcases kmalloc_ledger l size answer with ⟨hlive, heq⟩ | ⟨c, hlive, heq⟩
    · rw [heq] at hp
      exact ⟨hp, fun b hb => absurd (hlive.symm.trans hb) (List.cons_ne_self _ _).symm⟩
    · rw [heq, List.mem_filter, decide_eq_true_eq] at hp
      refine ⟨hp.1, ?_⟩
      intro b hb
      rw [← (List.cons.inj (hlive.symm.trans hb)).1]
      exact hp.2
  refine ⟨free', hr.of_served hi hs, hr.served_apart hi hs ?_ h.apart, ?_, ?_⟩
  · intro b hb
    simp only [hidem]
    exact hap b hb
  · intro p hp
    obtain ⟨hp, hne⟩ := hfreed p hp
    exact (hready p (h.freed p hp)).of_served hr hi hs hne
  · intro p hp b hb
    obtain ⟨hp, hne⟩ := hfreed p hp
    rcases kmalloc_ledger l size answer with ⟨hlive, -⟩ | ⟨c, hlive, -⟩
    · rw [hlive] at hb
      exact h.gone p hp b hb
    · rw [hlive, List.mem_cons] at hb
      rcases hb with rfl | hb
      · exact (hne b hlive).symm
      · exact h.gone p hp b hb

/-- After a free the pointer is no live block's. -/
theorem Settled.gone_kfree {l : Ledger} {ptr : ℕ} (h : Settled l free) :
    ∀ p ∈ (l.step (.kfree ptr)).freed, ∀ b ∈ (l.step (.kfree ptr)).world.live, b.ptr ≠ p := by
  intro p hp b hb
  obtain ⟨hb, hne⟩ := List.mem_filter.1 hb
  rcases List.mem_cons.1 hp with rfl | hp
  · simpa using hne
  · exact h.gone p hp b hb

/-- **One step of a run that frees once.** -/
theorem Settled.step {l : Ledger} {op : Op} (h : Settled l free) (hmay : op.MayRefree l)
    (hok : op.FreesOnce l.world) : ∃ free', Settled (l.step op) free' := by
  cases op with
  | kmalloc size answer => exact h.kmalloc hmay hok
  | kzalloc size answer => exact hmay.elim
  | kfree ptr =>
    rcases hok with ⟨b, hb, rfl, hu⟩ | hig
    · cases hu' : b.use with
      | large => exact absurd hu' hu
      | slab i =>
        obtain ⟨o, hp, hinv⟩ := h.inv.kfree hb hu'
        obtain ⟨o', hp', hobj, -, hmark⟩ := h.inv.small b hb i hu'
        obtain rfl : o' = o := Nat.add_right_cancel (hp'.symm.trans hp)
        refine ⟨_, hinv, h.apart.sublist List.filter_sublist, ?_, h.gone_kfree⟩
        intro p hpf
        have heq : (kfree l.world.heap b.ptr).1 = putBack l.world.heap i o' := by
          rw [hp]
          exact h.inv.kfree_eq hobj hmark
        simp only [Ledger.step, World.step, heq]
        refine Freed.putBack ?_ h.inv hobj hmark
        rcases List.mem_cons.1 hpf with rfl | hpf
        · exact Or.inr hp
        · exact Or.inl (h.freed p hpf)
    · -- the pointer is passed over, so it is no live small block's
      have hworld : l.world.step (.kfree ptr) =
          { l.world with live := l.world.live.filter fun b => b.ptr ≠ ptr } := by
        simp only [World.step, hig.kfree_eq]
      refine ⟨free, ?_, h.apart.sublist List.filter_sublist, ?_, h.gone_kfree⟩
      · simp only [Ledger.step, hworld]
        exact h.inv.forget _
      · intro p hp
        simp only [Ledger.step, hworld]
        rcases List.mem_cons.1 hp with rfl | hp
        · rcases hmay with ⟨b, hb, rfl⟩ | hfreed
          · cases hu : b.use with
            | slab i =>
              obtain ⟨o, hptr, -, -, hmark⟩ := h.inv.small b hb i hu
              rw [hptr] at hig
              exact absurd hig hmark.not_ignored
            | large =>
              obtain ⟨r, hr, hru, hrp, -⟩ := h.inv.large b hb hu
              exact Or.inr ⟨r, hr, hru, hrp⟩
          · exact h.freed p hfreed
        · exact h.freed p hp
  | write addr byte =>
    have hm : ∀ i o, Object l.world.regions i o → SameHeader l.world.heap.mem
        (Function.update l.world.heap.mem addr byte) o := by
      intro i o ho x hx1 hx2
      have hoff := hmay i o ho
      exact Function.update_of_ne (by omega) ..
    refine ⟨free, h.inv.setMem hm, h.apart, ?_, h.gone⟩
    intro p hp
    exact (h.freed p hp).congr h.inv hm rfl

/-- A run in which nothing is freed twice. -/
def OnceRun (mem : ByteMem) (ops : List Op) : Prop :=
  Allowed Ledger.step (fun l op => op.MayRefree l ∧ op.FreesOnce l.world) (Ledger.boot mem) ops

theorem OnceRun.settled {mem : ByteMem} {ops : List Op} (h : OnceRun mem ops) :
    ∃ free, Settled (runFrom Ledger.step (Ledger.boot mem) ops) free := by
  refine Allowed.invariant (P := fun l => ∃ free, Settled l free) ?_ h ⟨fun _ => [], ?_⟩
  · rintro l op ⟨free, hl⟩ ⟨hmay, hok⟩
    exact hl.step hmay hok
  · exact ⟨inv_boot mem, List.Pairwise.nil, fun p hp => (List.not_mem_nil hp).elim,
      fun p hp => (List.not_mem_nil hp).elim⟩

/-- The free lists of a heap end, and no object occurs twice on one. -/
def ListsOk (h : Heap) : Prop :=
  ∃ free : Fin 8 → List ℕ, ∀ i, Chain h.mem (h.slabs i).freeList (free i) ∧ (free i).Nodup

/-- **Putting a free object back makes its list a cycle.** -/
theorem Inv.putBack_cycles (h : Inv w free) (ho : o ∈ free i) : ¬ ListsOk (putBack w.heap i o) := by
  rintro ⟨free', hfree'⟩
  have hobj := h.free_object i o ho
  obtain ⟨before, rest, hsplit⟩ := List.append_of_mem ho
  have hnodup := h.free_nodup i
  rw [hsplit] at hnodup
  have hnot : o ∉ before := by
    intro hin
    exact List.disjoint_of_nodup_append hnodup hin List.mem_cons_self
  -- the way from the old head to the object is as it was
  have hway : Links (fun q => (putBack w.heap i o).mem.load q 8) (w.heap.slabs i).freeList
      before o := by
    have hchain := chain_iff_links.1 (h.chain i)
    rw [hsplit] at hchain
    obtain ⟨m, hbefore, hm⟩ := links_append.1 hchain
    obtain ⟨rfl, -, -⟩ := hm
    refine hbefore.congr ?_
    intro q hq
    have hqf : q ∈ free i := by
      rw [hsplit]
      exact List.mem_append_left _ hq
    have hsame := h.putBack_sameHeader hobj (h.free_object i q hqf) fun hc => hnot (hc.2 ▸ hq)
    exact hsame.load le_rfl (by simp only [headerSize]; omega)
  have hnext : (putBack w.heap i o).mem.load o 8 = (w.heap.slabs i).freeList :=
    ByteMem.load_store_of_lt (h.freeList_lt i)
  have hcycle : Links (fun q => (putBack w.heap i o).mem.load q 8) o (o :: before) o := by
    refine ⟨rfl, h.regions.object_ne_zero hobj, ?_⟩
    simp only [hnext]
    exact hway
  have hends := chain_iff_links.1 (hfree' i).1
  have hhead : ((putBack w.heap i o).slabs i).freeList = o := by
    simp [putBack, Heap.setSlab]
  rw [hhead] at hends
  exact hcycle.not_ends (List.cons_ne_nil _ _) hends

/-- A small block that was freed is not passed over when it is freed again. -/
theorem Settled.refree_cycles {l : Ledger} {p : ℕ} (h : Settled l free) (hp : p ∈ l.freed)
    (hsmall : ∀ r ∈ l.world.regions, r.use = .large → r.ptr ≠ p) :
    ¬ ListsOk (kfree l.world.heap p).1 := by
  rcases h.freed p hp with ⟨i, o, ho, rfl, hmark⟩ | ⟨r, hr, hru, hrp⟩
  · rw [h.inv.kfree_eq (h.inv.free_object i o ho) hmark]
    exact h.inv.putBack_cycles ho
  · exact absurd hrp (hsmall r hr hru)

/-- **Freeing twice.** In every run in which each pointer that is freed is
a live small block's or is passed over, the free lists are finite and no
object occurs twice, no two live pointers are equal, and freeing a
pointer again has no effect. And in such a run freeing a small block
again always breaks this: its free list becomes a cycle. -/
theorem freed_once {mem : ByteMem} {ops : List Op} (hrun : OnceRun mem ops) :
    ListsOk (runFrom Ledger.step (Ledger.boot mem) ops).world.heap ∧
      (runFrom Ledger.step (Ledger.boot mem) ops).world.live.Pairwise
        (fun b b' => b.ptr ≠ b'.ptr) ∧
      ∀ p ∈ (runFrom Ledger.step (Ledger.boot mem) ops).freed,
        ((Op.kfree p).FreesOnce (runFrom Ledger.step (Ledger.boot mem) ops).world →
          (kfree (runFrom Ledger.step (Ledger.boot mem) ops).world.heap p).1 =
            (runFrom Ledger.step (Ledger.boot mem) ops).world.heap) ∧
        ((∀ r ∈ (runFrom Ledger.step (Ledger.boot mem) ops).world.regions,
            r.use = .large → r.ptr ≠ p) →
          ¬ ListsOk (kfree (runFrom Ledger.step (Ledger.boot mem) ops).world.heap p).1) := by
  obtain ⟨free, h⟩ := hrun.settled
  refine ⟨⟨free, fun i => ⟨h.inv.chain i, h.inv.free_nodup i⟩⟩, h.apart, ?_⟩
  intro p hp
  refine ⟨?_, h.refree_cycles hp⟩
  rintro (⟨b, hb, hptr, -⟩ | hig)
  · exact absurd hptr (h.gone p hp b hb)
  · exact hig.kfree_eq

/-- One object of 32 bytes, handed out and freed. -/
theorem once_thirty_two : OnceRun (fun _ => 0) [.kmalloc 32 0x100000, .kfree 0x100010] := by
  have hreq : (kmalloc (boot fun _ => 0) 32 0x100000).request = some 1 := by decide +kernel
  have hlive : ((Ledger.boot fun _ => 0).step (.kmalloc 32 0x100000)).world.live =
      [⟨0x100010, 32, .slab 1⟩] := by decide +kernel
  have hmem : (⟨0x100010, 32, .slab 1⟩ : Block) ∈
      ((Ledger.boot fun _ => 0).step (.kmalloc 32 0x100000)).world.live := by
    rw [hlive]
    exact List.mem_cons_self
  refine ⟨⟨?_, ?_⟩, ⟨Or.inl ⟨_, hmem, rfl⟩, Or.inl ⟨_, hmem, rfl, by simp⟩⟩, trivial⟩
  · intro pages hp _
    obtain rfl : 1 = pages := Option.some.inj (hreq.symm.trans hp)
    exact fresh_page
  · intro b hb
    cases hb

theorem freed_once_thirty_two :
    OnceRun (fun _ => 0) [.kmalloc 32 0x100000, .kfree 0x100010] ∧
      ListsOk (runFrom Ledger.step (Ledger.boot fun _ => 0)
        [.kmalloc 32 0x100000, .kfree 0x100010]).world.heap :=
  ⟨once_thirty_two, (freed_once once_thirty_two).1⟩

/-- **Freeing it again** makes the list of 32-byte objects a cycle. -/
theorem second_free_cycles :
    Allowed Ledger.step (fun l op => op.MayRefree l) (Ledger.boot fun _ => 0)
        [.kmalloc 32 0x100000, .kfree 0x100010, .kfree 0x100010] ∧
      ¬ ListsOk (runFrom Ledger.step (Ledger.boot fun _ => 0)
        [.kmalloc 32 0x100000, .kfree 0x100010, .kfree 0x100010]).world.heap := by
  obtain ⟨free, h⟩ := once_thirty_two.settled
  have hregions : (runFrom Ledger.step (Ledger.boot fun _ => 0)
      [.kmalloc 32 0x100000, .kfree 0x100010]).world.regions = [⟨0x100000, 1, .slab 1⟩] := by
    decide +kernel
  refine ⟨⟨once_thirty_two.1.1, once_thirty_two.2.1.1, Or.inr List.mem_cons_self, trivial⟩, ?_⟩
  refine h.refree_cycles List.mem_cons_self ?_
  intro r hr hu
  rw [hregions, List.mem_singleton] at hr
  subst hr
  cases hu

/-! ## Freeing large blocks -/

/-- The pages `kmalloc` asks for. -/
def largePages (size : ℕ) : ℕ := add64 size (pageSize - 1) / pageSize

/-- The page allocator after the `pmm_free_pages` of a `kfree`, if it comes
to one. -/
def afterKfree (t : Pmm.State) : Option (ℕ × ℕ) → Pmm.State
  | none => t
  | some (ptr, pages) => Pmm.pmmFreePages t ptr pages

/-- `kfree` makes no page available. -/
theorem afterKfree_shrinks (t : Pmm.State) (request : Option (ℕ × ℕ)) :
    Pmm.Shrinks t (afterKfree t request) := by
  cases request with
  | none => exact Pmm.Shrinks.refl t
  | some r => exact Pmm.pmmFreePages_shrinks t r.1 r.2

/-- A large block is what the page allocator answered. -/
theorem kmalloc_large_ptr (h : Heap) {size : ℕ} (hsize : kmallocMaxSize < size) (answer : ℕ) :
    (kmalloc h size answer).ptr = answer := by
  have hne : size ≠ 0 := by omega
  simp only [kmalloc, if_neg hne, if_pos hsize]
  split
  · rfl
  · rename_i hzero
    exact (not_not.1 hzero).symm

/-- The answers of `pmm_alloc_pages` are page addresses. -/
theorem dvd_pmmAllocPages (t : Pmm.State) (count : ℕ) : pageSize ∣ (Pmm.pmmAllocPages t count).2 := by
  have hloop : ∀ r : Pmm.Request, pageSize ∣ (Pmm.allocFrom r Pmm.allocOrder t).2 := by
    intro r
    rcases Pmm.allocFrom_cases r Pmm.allocOrder t with heq | ⟨z, pfn, -, heq⟩
    · rw [heq]
      exact Nat.dvd_zero _
    · rw [heq]
      refine Nat.dvd_of_mod_eq_zero ?_
      simp only [physToVirt, add64, kernelHigherHalf, pageSize]
      omega
  unfold Pmm.pmmAllocPages
  split
  · exact Nat.dvd_zero _
  · split
    · exact hloop .page
    · exact hloop (.pages count)

/-- **When `kfree` asks for the pages of a large block to be freed**: the
eight bytes below the block read like the header of a large object of as
many pages. -/
theorem kfree_asks_iff (h : Heap) {ptr pages : ℕ} (hpage : pageSize ∣ ptr) (hp : ptr ≠ 0) :
    kfree h ptr = (h, some (ptr, pages)) ↔
      h.mem.load (ptr - 8) 4 = liveMagic ∧ kmallocMaxSize < h.mem.load (ptr - 4) 4 ∧
        (h.mem.load (ptr - 4) 4 + pageSize - 1) % 2 ^ 32 / pageSize = pages := by
  obtain ⟨n, rfl⟩ := hpage
  have hn : 0 < n := Nat.pos_of_ne_zero fun h0 => hp (by rw [h0, Nat.mul_zero])
  have hmagic : pageSize * n - headerSize + 8 = pageSize * n - 8 := by
    simp only [pageSize, headerSize]
    omega
  have hlen : pageSize * n - headerSize + 12 = pageSize * n - 4 := by
    simp only [pageSize, headerSize]
    omega
  simp only [kfree, if_neg hp, hmagic, hlen]
  by_cases hm : h.mem.load (pageSize * n - 8) 4 = liveMagic
  · rw [if_neg (not_not.2 hm)]
    by_cases hbig : kmallocMaxSize < h.mem.load (pageSize * n - 4) 4
    · rw [if_pos hbig]
      simp only [hm, hbig, true_and, Prod.mk.injEq, Option.some.injEq]
    · rw [if_neg hbig]
      refine iff_of_false ?_ fun hc => hbig hc.2.1
      split
      · simp
      · simp
  · rw [if_pos hm]
    exact iff_of_false (by simp) fun hc => hm hc.1

/-- **The pages of a large block never come back.** Whatever the heap and
the memory below the block hold, a page of it that was taken is taken
after `kfree`; and the page allocator is asked for them at all only if the
bytes below the block read like the header of a large object of as many
pages. -/
theorem kfree_never_returns (h₀ h : Heap) (t₀ t : Pmm.State) (size : UInt64)
    (hsize : kmallocMaxSize < size.toNat)
    (hp : (kmalloc h₀ size.toNat (Pmm.pmmAllocPages t₀ (largePages size.toNat)).2).ptr ≠ 0) :
    let ptr := (kmalloc h₀ size.toNat (Pmm.pmmAllocPages t₀ (largePages size.toNat)).2).ptr
    let pages := (size.toNat + pageSize - 1) / pageSize
    0 < pages ∧
      (∀ k < pages, ¬ Pmm.Available t (Pmm.blockPage ptr k) →
        ¬ Pmm.Available (afterKfree t (kfree h ptr).2) (Pmm.blockPage ptr k)) ∧
      (kfree h ptr = (h, some (ptr, pages)) ↔
        h.mem.load (ptr - 8) 4 = liveMagic ∧ kmallocMaxSize < h.mem.load (ptr - 4) 4 ∧
          (h.mem.load (ptr - 4) 4 + pageSize - 1) % 2 ^ 32 / pageSize = pages) := by
  intro ptr pages
  have hpage : pageSize ∣ ptr := by
    rw [show ptr = _ from kmalloc_large_ptr h₀ hsize _]
    exact dvd_pmmAllocPages t₀ _
  refine ⟨?_, fun k _ htaken hback => ?_, kfree_asks_iff h hpage hp⟩
  · simp only [pages, pageSize]
    omega
  · exact htaken ((afterKfree_shrinks t _).available _ hback)

/-- The header of a large object of one page, below the page at 16 MB. -/
def pageHeader : ByteMem :=
  (ByteMem.store (fun _ => 0) 0xFFFF800000FFFFF8 4 liveMagic).store 0xFFFF800000FFFFFC 4 4096

/-- **A block whose header was found by chance**: its page is asked for,
and stays taken. -/
theorem kfree_never_returns_header :
    let h : Heap := ⟨fun _ => ⟨0, 0, 0, 0⟩, true, pageHeader⟩
    let t := (Pmm.pmmAllocPages (Pmm.pmmInit Pmm.highMap) 1).1
    kfree h 0xFFFF800001000000 = (h, some (0xFFFF800001000000, 1)) ∧
      ¬ Pmm.Available (afterKfree t (kfree h 0xFFFF800001000000).2) 0xFFFF800001000000 := by
  intro h t
  have hptr : (kmalloc (boot fun _ => 0) (4096 : UInt64).toNat
      (Pmm.pmmAllocPages (Pmm.pmmInit Pmm.highMap) (largePages (4096 : UInt64).toNat)).2).ptr =
        0xFFFF800001000000 := by
    decide +kernel
  obtain ⟨-, hkept, hasks⟩ := kfree_never_returns (boot fun _ => 0) h (Pmm.pmmInit Pmm.highMap) t 4096
    (by decide) (by rw [hptr]; decide)
  rw [hptr] at hkept hasks
  refine ⟨hasks.2 ⟨by decide +kernel, by decide +kernel, by decide +kernel⟩, hkept 0 (by decide) ?_⟩
  have hstart := Pmm.SameLayout.refl (Pmm.pmmInit Pmm.highMap)
  have hlay := (Pmm.Request.exec_grants Pmm.highMap_ok hstart (.pages 1)).shrinks.layout
  have hb : (t.zones .dma32).basePfn ≤ 0x1000 := by decide +kernel
  have he : 0x1000 < (t.zones .dma32).endPfn := by decide +kernel
  have hused : (t.zones .dma32).used (0x1000 - (t.zones .dma32).basePfn) = true := by decide +kernel
  have hgone := Pmm.not_available_of_used Pmm.highMap_ok (s := t) hlay hb he hused
  exact hgone

/-- **The first large block is not returned**: nothing lies below it, and
the bit of its page stays set. -/
theorem large_page_kept :
    let out := Pmm.pmmAllocPages (Pmm.pmmInit Pmm.highMap) 1
    let r := kmalloc (boot fun _ => 0) 4096 out.2
    let t := afterKfree out.1 (kfree r.heap r.ptr).2
    r.request = some 1 ∧ r.ptr = 0xFFFF800001000000 ∧ (kfree r.heap r.ptr).2 = none ∧
      (t.zones .dma32).basePfn = 0x1000 ∧ (t.zones .dma32).used 0 = true ∧
      (t.zones .dma32).freePages = 1 := by
  decide +kernel

end Kmalloc

end Kos
