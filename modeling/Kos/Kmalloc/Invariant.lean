import Kos.Kmalloc.World
/-!
# Kmalloc — what every call keeps

The invariant speaks of headers only: as long as nobody writes over the
header of an object, each free list is a chain of objects of its class,
none of them live, and `kfree` finds in the header what `kmalloc` put
there. Each of the things a call does (taking an object, splitting a
page, obtaining large pages, putting an object back) keeps it, for
requests of any size.
-/

namespace Kos

namespace Kmalloc

variable {w : World} {free : Fin 8 → List ℕ} {i j : Fin 8} {o q : ℕ} {mem mem' : ByteMem}

/-- The header of an object that was handed out. -/
structure Marked (mem : ByteMem) (i : Fin 8) (o : ℕ) : Prop where
  magic : mem.load (o + 8) 4 = liveMagic
  size : mem.load (o + 12) 4 = sizes i

/-- **The invariant**, with the free lists named. -/
structure Inv (w : World) (free : Fin 8 → List ℕ) : Prop where
  regions : RegionsOk w.regions
  size_eq : w.heap.initialized = true → ∀ i, (w.heap.slabs i).size = sizes i
  unused : w.heap.initialized = false → w.regions = []
  chain : ∀ i, Chain w.heap.mem (w.heap.slabs i).freeList (free i)
  free_object : ∀ i, ∀ o ∈ free i, Object w.regions i o
  free_nodup : ∀ i, (free i).Nodup
  small : ∀ b ∈ w.live, ∀ i, b.use = .slab i → ∃ o, b.ptr = o + headerSize ∧
    Object w.regions i o ∧ o ∉ free i ∧ Marked w.heap.mem i o
  large : ∀ b ∈ w.live, b.use = .large →
    ∃ r ∈ w.regions, r.use = .large ∧ r.ptr = b.ptr ∧ b.size ≤ pageSize * r.pages
  distinct : w.live.Pairwise Block.Differs

theorem inv_boot (mem : ByteMem) : Inv (World.boot mem) fun _ => [] where
  regions := by constructor <;> simp [World.boot]
  size_eq h := by cases h
  unused _ := rfl
  chain _ := rfl
  free_object i o h := by simp at h
  free_nodup _ := List.nodup_nil
  small b hb := by simp [World.boot] at hb
  large b hb := by simp [World.boot] at hb
  distinct := List.Pairwise.nil

/-! ## Memory -/

/-- The two memories agree on a header. -/
def SameHeader (mem mem' : ByteMem) (o : ℕ) : Prop :=
  ∀ x, o ≤ x → x < o + headerSize → mem' x = mem x

theorem SameHeader.load {a n : ℕ} (h : SameHeader mem mem' o) (h1 : o ≤ a)
    (h2 : a + n ≤ o + headerSize) : mem'.load a n = mem.load a n :=
  ByteMem.load_congr fun x hx1 hx2 => h x (by omega) (by omega)

theorem SameHeader.marked (h : SameHeader mem mem' o) (hm : Marked mem i o) : Marked mem' i o :=
  ⟨(h.load (by omega) (by simp only [headerSize]; omega)).trans hm.magic,
    (h.load (by omega) (by simp only [headerSize]; omega)).trans hm.size⟩

theorem chain_of_sameHeader {p : ℕ} {l : List ℕ} (h : Chain mem p l)
    (hl : ∀ o ∈ l, SameHeader mem mem' o) : Chain mem' p l :=
  h.congr fun o ho => (hl o ho).load le_rfl (by simp only [headerSize]; omega)

/-- **Writing outside the headers keeps the invariant.** -/
theorem Inv.setMem (h : Inv w free)
    (hm : ∀ i o, Object w.regions i o → SameHeader w.heap.mem mem' o) :
    Inv { w with heap := { w.heap with mem := mem' } } free where
  regions := h.regions
  size_eq := h.size_eq
  unused := h.unused
  chain i := chain_of_sameHeader (h.chain i) fun o ho => hm i o (h.free_object i o ho)
  free_object := h.free_object
  free_nodup := h.free_nodup
  small b hb i hu := by
    obtain ⟨o, hp, hobj, hfree, hmark⟩ := h.small b hb i hu
    exact ⟨o, hp, hobj, hfree, (hm i o hobj).marked hmark⟩
  large := h.large
  distinct := h.distinct

/-- `kmalloc_init`, where it still has to run. -/
def ready (h : Heap) : Heap := if h.initialized then h else kmallocInit h

theorem Inv.ready (h : Inv w free) :
    Inv { w with heap := ready w.heap } free ∧ (ready w.heap).initialized = true := by
  unfold Kmalloc.ready
  cases hi : w.heap.initialized with
  | true => exact ⟨h, hi⟩
  | false =>
    -- nothing was carved, so every free list is empty
    have hnone : ∀ i, free i = [] := by
      intro i
      refine List.eq_nil_iff_forall_not_mem.2 fun o ho => ?_
      obtain ⟨r, hr, -⟩ := h.free_object i o ho
      rw [h.unused hi] at hr
      cases hr
    refine ⟨⟨h.regions, fun _ _ => rfl, fun hf => Bool.noConfusion hf, fun i => ?_, h.free_object,
      h.free_nodup, h.small, h.large, h.distinct⟩, rfl⟩
    rw [hnone i]
    rfl

/-! ## Headers -/

theorem writeHeader_of_not_mem {next magic size x : ℕ} (h : x < o ∨ o + headerSize ≤ x) :
    writeHeader mem o next magic size x = mem x := by
  simp only [headerSize] at h
  rw [writeHeader, ByteMem.store_of_not_mem (by omega), ByteMem.store_of_not_mem (by omega),
    ByteMem.store_of_not_mem (by omega)]

theorem load_writeHeader {next magic size : ℕ} (h : next < 2 ^ 64) :
    (writeHeader mem o next magic size).load o 8 = next := by
  rw [writeHeader, ByteMem.load_store_of_disjoint (by omega),
    ByteMem.load_store_of_disjoint (by omega), ByteMem.load_store_of_lt h]

/-- The loop of `buildList` after `n` objects: it has written only in their
slots, and each is linked to the next. -/
theorem buildLoop {page c : ℕ} (hc : headerSize ≤ c) (n : ℕ) (hlt : page + n * c < 2 ^ 64) :
    let out := (List.range n).foldl
      (fun mem k => writeHeader mem (page + k * c) (page + (k + 1) * c) 0 0) mem
    (∀ x, x < page ∨ page + n * c ≤ x → out x = mem x) ∧
      ∀ k < n, out.load (page + k * c) 8 = page + (k + 1) * c := by
  induction n with
  | zero => exact ⟨fun _ _ => rfl, fun k hk => by omega⟩
  | succ n ih =>
    have hn : (n + 1) * c = n * c + c := by rw [Nat.add_mul, Nat.one_mul]
    obtain ⟨hout, hlink⟩ := ih (by omega)
    simp only [List.range_succ, List.foldl_append, List.foldl_cons, List.foldl_nil]
    refine ⟨fun x hx => ?_, fun k hk => ?_⟩
    · rw [writeHeader_of_not_mem (by omega)]
      exact hout x (by omega)
    · rcases Nat.lt_succ_iff_lt_or_eq.1 hk with hk | rfl
      · rw [← hlink k hk]
        have hslot := slot_le (c := c) hk
        simp only [headerSize] at hc
        exact ByteMem.load_congr fun x h1 h2 => writeHeader_of_not_mem (by omega)
      · exact load_writeHeader hlt

/-- **Splitting a page** writes inside it and makes one chain of its
slots. -/
theorem buildList_spec {page : ℕ} (i : Fin 8) (hp : page ≠ 0) (hlt : page + pageSize < 2 ^ 64) :
    (∀ x, x < page ∨ page + pageSize ≤ x → buildList mem page (sizes i) x = mem x) ∧
      Chain (buildList mem page (sizes i)) page (slots page (sizes i) (pageSize / sizes i)) := by
  obtain ⟨hobjs, htwo⟩ := sizes_objs i
  have hge := sizes_ge i
  obtain ⟨n, hn⟩ : ∃ n, pageSize / sizes i = n + 1 := ⟨pageSize / sizes i - 1, by omega⟩
  rw [hn] at hobjs ⊢
  have hmul : (n + 1) * sizes i = n * sizes i + sizes i := by rw [Nat.add_mul, Nat.one_mul]
  obtain ⟨hout, hlink⟩ := @buildLoop mem page (sizes i) hge n (by omega)
  simp only [buildList, hn, Nat.add_sub_cancel]
  refine ⟨fun x hx => ?_, Chain.of_links hp (fun k hk => ?_) (load_writeHeader (by decide))⟩
  · rw [writeHeader_of_not_mem (by simp only [headerSize]; omega)]
    exact hout x (by omega)
  · rw [← hlink k hk]
    have hslot := slot_le (c := sizes i) hk
    exact ByteMem.load_congr fun x h1 h2 =>
      writeHeader_of_not_mem (by simp only [headerSize]; omega)

/-! ## What the calls do -/

/-- Writing a cache back with its own size keeps the sizes of all. -/
theorem setSlab_size {g : Heap} {slab : SlabCache} (h : slab.size = (g.slabs i).size)
    (j : Fin 8) : ((g.setSlab i slab).slabs j).size = (g.slabs j).size :=
  (Function.forall_update_iff g.slabs fun j s => s.size = (g.slabs j).size).2
    ⟨h, fun _ _ => rfl⟩ j

/-- Taking an object writes in its header only. -/
theorem take_sameHeader {regions : List Region} (hr : RegionsOk regions) {v : ℕ}
    (ho : Object regions i o) (hq : Object regions j q) (hne : ¬ (i = j ∧ o = q)) :
    SameHeader mem ((mem.store (o + 8) 4 liveMagic).store (o + 12) 4 v) q := by
  intro x h1 h2
  have hap := hr.object_apart ho hq
  have hi := sizes_ge i
  have hj := sizes_ge j
  simp only [headerSize] at h2
  rw [ByteMem.store_of_not_mem (by omega), ByteMem.store_of_not_mem (by omega)]

/-- The mark put on an object that is taken. -/
theorem take_marked (mem : ByteMem) (i : Fin 8) (o : ℕ) :
    Marked ((mem.store (o + 8) 4 liveMagic).store (o + 12) 4 (sizes i)) i o := by
  have hle := sizes_le i
  simp only [kmallocMaxSize] at hle
  constructor
  · rw [ByteMem.load_store_of_disjoint (by omega), ByteMem.load_store_of_lt (by decide)]
  · rw [ByteMem.load_store_of_lt (by omega)]

/-- **No live block is a free object.** -/
theorem Inv.ptr_ne_free {b : Block} (h : Inv w free) (ho : o ∈ free i) (hb : b ∈ w.live)
    (hu : b.use = .slab j) : b.ptr ≠ o + headerSize := by
  intro hptr
  obtain ⟨p, hp, hpo, hpf, -⟩ := h.small b hb j hu
  obtain rfl : p = o := Nat.add_right_cancel (hp.symm.trans hptr)
  -- an object at one address is of one class, so it would be in its own free list
  have hap := h.regions.object_apart (h.free_object i p ho) hpo
  have hi := sizes_ge i
  have hj := sizes_ge j
  obtain ⟨rfl, -⟩ := hap.resolve_right (by omega)
  exact hpf ho

/-- What is left of the free lists when the head of one of them is taken. -/
theorem Inv.mem_update_tail {rest : List ℕ} (h : Inv w free) (hfree : free i = o :: rest)
    (hq : q ∈ Function.update free i rest j) : q ∈ free j ∧ ¬ (i = j ∧ o = q) := by
  by_cases hji : j = i
  · subst hji
    have hnodup := h.free_nodup j
    rw [hfree, List.nodup_cons] at hnodup
    rw [Function.update_self] at hq
    rw [hfree]
    refine ⟨List.mem_cons_of_mem o hq, ?_⟩
    rintro ⟨-, rfl⟩
    exact hnodup.1 hq
  · rw [Function.update_of_ne hji] at hq
    exact ⟨hq, fun hc => hji hc.1.symm⟩

/-- The free list of the class loses its head, the others stay. -/
theorem Inv.take_chain {rest : List ℕ} (h : Inv w free) (hfree : free i = o :: rest)
    (j : Fin 8) :
    Chain (takeObject w.heap i).1.mem ((takeObject w.heap i).1.slabs j).freeList
      (Function.update free i rest j) := by
  have hchain := h.chain i
  rw [hfree] at hchain
  obtain ⟨hhead, -, hrest⟩ := hchain
  have ho : o ∈ free i := by
    rw [hfree]
    exact List.mem_cons_self
  have hkeep : ∀ q ∈ Function.update free i rest j,
      SameHeader w.heap.mem (takeObject w.heap i).1.mem q := by
    intro q hq
    obtain ⟨hqf, hne⟩ := h.mem_update_tail hfree hq
    simp only [takeObject, hhead]
    exact take_sameHeader h.regions (h.free_object i o ho) (h.free_object j q hqf) hne
  refine chain_of_sameHeader ?_ hkeep
  by_cases hji : j = i
  · subst hji
    simpa [takeObject, Heap.setSlab, hhead] using hrest
  · simpa [takeObject, Heap.setSlab, hji] using h.chain j

/-- The first node of a free list is its head. -/
theorem Inv.freeList_eq {rest : List ℕ} (h : Inv w free) (hfree : free i = o :: rest) :
    (w.heap.slabs i).freeList = o := by
  have hchain := h.chain i
  rw [hfree] at hchain
  exact hchain.1

/-- **Taking the first free object**: it becomes live, and its header is
marked. -/
theorem Inv.take {rest : List ℕ} (h : Inv w free) (hi : w.heap.initialized = true)
    (hfree : free i = o :: rest) (size : ℕ) :
    (takeObject w.heap i).2 = o + headerSize ∧
      Inv ⟨(takeObject w.heap i).1, w.regions, ⟨o + headerSize, size, .slab i⟩ :: w.live⟩
        (Function.update free i rest) := by
  have hhead := h.freeList_eq hfree
  have ho : o ∈ free i := by
    rw [hfree]
    exact List.mem_cons_self
  have hobj := h.free_object i o ho
  have hnodup := h.free_nodup i
  rw [hfree, List.nodup_cons] at hnodup
  have hmem : (takeObject w.heap i).1.mem =
      (w.heap.mem.store (o + 8) 4 liveMagic).store (o + 12) 4 (sizes i) := by
    simp only [takeObject, hhead, h.size_eq hi]
  refine ⟨by simp only [takeObject, hhead], h.regions,
    fun _ j => (setSlab_size (by rfl) j).trans (h.size_eq hi j),
    fun hf => absurd (hi.symm.trans hf) (by decide), h.take_chain hfree,
    fun j q hq => h.free_object j q (h.mem_update_tail hfree hq).1,
    (Function.forall_update_iff free fun _ l => l.Nodup).2 ⟨hnodup.2, fun j _ => h.free_nodup j⟩,
    fun b hb j hu => ?_, fun b hb hu => ?_,
    List.pairwise_cons.2 ⟨fun b hb hkind hptr => ?_, h.distinct⟩⟩
  · rw [List.mem_cons] at hb
    simp only [hmem]
    rcases hb with rfl | hb
    · obtain rfl : i = j := Use.slab.inj hu
      refine ⟨o, rfl, hobj, ?_, take_marked w.heap.mem i o⟩
      rw [Function.update_self]
      exact hnodup.1
    · obtain ⟨p, hp, hpo, hpf, hpm⟩ := h.small b hb j hu
      have hne : ¬ (i = j ∧ o = p) := by
        rintro ⟨rfl, rfl⟩
        exact hpf ho
      exact ⟨p, hp, hpo, fun hin => hpf (h.mem_update_tail hfree hin).1,
        (take_sameHeader h.regions hobj hpo hne).marked hpm⟩
  · rw [List.mem_cons] at hb
    rcases hb with rfl | hb
    · cases hu
    · exact h.large b hb hu
  · -- the object was free, and no live object is
    cases hu : b.use with
    | large => exact absurd (hkind.2 hu) (by simp)
    | slab j => exact h.ptr_ne_free ho hb hu hptr.symm

/-- **Fresh pages**: non-null, below the end of the address space, and
apart from everything obtained before. -/
structure Fresh (regions : List Region) (ptr pages : ℕ) : Prop where
  pages_pos : 0 < pages
  ptr_ne : ptr ≠ 0
  stop_lt : ptr + pageSize * pages < 2 ^ 64
  apart : ∀ r ∈ regions, ptr + pageSize * pages ≤ r.ptr ∨ r.stop ≤ ptr

theorem RegionsOk.cons {regions : List Region} {ptr pages : ℕ} {use : Use}
    (h : RegionsOk regions) (hf : Fresh regions ptr pages)
    (hu : ∀ i, use = .slab i → pages = 1) : RegionsOk (⟨ptr, pages, use⟩ :: regions) := by
  refine ⟨fun r hr => ?_, fun r hr => ?_, fun r hr => ?_, fun r hr i hs => ?_,
    List.pairwise_cons.2 ⟨fun r hr => hf.apart r hr, h.apart⟩⟩ <;>
    rcases List.mem_cons.1 hr with rfl | hr
  · exact hf.pages_pos
  · exact h.pages_pos r hr
  · exact hf.ptr_ne
  · exact h.ptr_ne r hr
  · exact hf.stop_lt
  · exact h.stop_lt r hr
  · exact hu i hs
  · exact h.slab_pages r hr i hs

theorem Object.cons {regions : List Region} {r : Region} (h : Object regions i o) :
    Object (r :: regions) i o := by
  obtain ⟨s, hs, hrest⟩ := h
  exact ⟨s, List.mem_cons_of_mem r hs, hrest⟩

/-- Writing in fresh pages leaves the headers there are alone. -/
theorem Fresh.sameHeader {regions : List Region} {ptr pages : ℕ} (hr : RegionsOk regions)
    (hf : Fresh regions ptr pages) (ho : Object regions i o)
    (hm : ∀ x, x < ptr ∨ ptr + pageSize * pages ≤ x → mem' x = mem x) :
    SameHeader mem mem' o := by
  intro x h1 h2
  obtain ⟨r, hmem, -, hlo, hhi⟩ := hr.object_inside ho
  have hap := hf.apart r hmem
  have hge := sizes_ge i
  simp only [headerSize] at h2
  exact hm x (by omega)

/-- More regions and more memory inside them. -/
theorem Inv.addRegion {ptr pages : ℕ} {use : Use} (h : Inv w free) (hi : w.heap.initialized = true)
    (hf : Fresh w.regions ptr pages) (hu : ∀ i, use = .slab i → pages = 1)
    (hm : ∀ x, x < ptr ∨ ptr + pageSize * pages ≤ x → mem' x = w.heap.mem x) :
    Inv { w with
      heap := { w.heap with mem := mem' }
      regions := ⟨ptr, pages, use⟩ :: w.regions } free := by
  have h' := h.setMem fun i o ho => hf.sameHeader h.regions ho hm
  refine ⟨h.regions.cons hf hu, h'.size_eq, fun hf => absurd (hi.symm.trans hf) (by decide),
    h'.chain, fun i o ho => (h'.free_object i o ho).cons, h'.free_nodup, fun b hb i hu => ?_,
    fun b hb hu => ?_, h'.distinct⟩
  · obtain ⟨o, hp, hobj, hrest⟩ := h'.small b hb i hu
    exact ⟨o, hp, hobj.cons, hrest⟩
  · obtain ⟨r, hr, hrest⟩ := h'.large b hb hu
    exact ⟨r, List.mem_cons_of_mem _ hr, hrest⟩

/-- Splitting a fresh page leaves the headers there are alone. -/
theorem Inv.carve_sameHeader {page : ℕ} (h : Inv w free) (hi : w.heap.initialized = true)
    (hf : Fresh w.regions page 1) (hq : Object w.regions j q) :
    SameHeader w.heap.mem (Kmalloc.carve w.heap i page).mem q := by
  have hlt := hf.stop_lt
  simp only [Nat.mul_one] at hlt
  obtain ⟨hout, -⟩ := @buildList_spec w.heap.mem page i hf.ptr_ne hlt
  simp only [Kmalloc.carve, h.size_eq hi i]
  exact hf.sameHeader h.regions hq fun x hx => hout x (by omega)

/-- **A fresh page is split** for a class whose free list was empty. -/
theorem Inv.carve {page : ℕ} (h : Inv w free) (hi : w.heap.initialized = true)
    (hnil : free i = []) (hf : Fresh w.regions page 1) :
    Inv ⟨carve w.heap i page, ⟨page, 1, .slab i⟩ :: w.regions, w.live⟩
      (Function.update free i (slots page (sizes i) (pageSize / sizes i))) := by
  have hlt := hf.stop_lt
  simp only [Nat.mul_one] at hlt
  obtain ⟨hout, hlist⟩ := @buildList_spec w.heap.mem page i hf.ptr_ne hlt
  have h' := @Inv.addRegion w free (buildList w.heap.mem page (sizes i)) page 1 (.slab i) h hi hf
    (fun _ _ => rfl) fun x hx => hout x (by omega)
  have hsz := h.size_eq hi i
  refine ⟨h'.regions, fun _ j => (setSlab_size (by rfl) j).trans (h.size_eq hi j), h'.unused,
    fun j => ?_, fun j o ho => ?_,
    (Function.forall_update_iff free fun _ l => l.Nodup).2 ⟨?_, fun j _ => h.free_nodup j⟩,
    fun b hb j hu => ?_, fun b hb hu => ?_, h'.distinct⟩
  · by_cases hji : j = i
    · subst hji
      simpa [Kmalloc.carve, Heap.setSlab, hsz] using hlist
    · simpa [Kmalloc.carve, Heap.setSlab, hji, hsz] using h'.chain j
  · by_cases hji : j = i
    · subst hji
      rw [Function.update_self, mem_slots] at ho
      exact ⟨_, List.mem_cons_self, rfl, ho⟩
    · rw [Function.update_of_ne hji] at ho
      exact h'.free_object j o ho
  · have hge := sizes_ge i
    exact slots_nodup (by omega)
  · obtain ⟨o, hp, hobj, hfree, hmark⟩ := h.small b hb j hu
    refine ⟨o, hp, hobj.cons, fun hin => ?_, (h.carve_sameHeader hi hf hobj).marked hmark⟩
    by_cases hji : j = i
    · -- a live object was carved from an older page
      subst hji
      rw [Function.update_self, mem_slots] at hin
      obtain ⟨k, hk, rfl⟩ := hin
      obtain ⟨r, hr, -, hlo, hhi⟩ := h.regions.object_inside hobj
      have hslot := slot_le (c := sizes j) hk
      have hobjs := (sizes_objs j).1
      have hge := sizes_ge j
      have hap := hf.apart r hr
      omega
    · rw [Function.update_of_ne hji] at hin
      exact hfree hin
  · exact h'.large b hb hu

/-- **Pages of a large request** are a block of their own. -/
theorem Inv.addLarge {ptr pages size : ℕ} (h : Inv w free) (hi : w.heap.initialized = true)
    (hf : Fresh w.regions ptr pages) (hsize : size ≤ pageSize * pages)
    (hm : ∀ x, x < ptr ∨ ptr + pageSize * pages ≤ x → mem' x = w.heap.mem x) :
    Inv ⟨{ w.heap with mem := mem' }, ⟨ptr, pages, .large⟩ :: w.regions,
      ⟨ptr, size, .large⟩ :: w.live⟩ free := by
  have h' := @Inv.addRegion w free mem' ptr pages .large h hi hf (fun i hu => by cases hu) hm
  refine ⟨h'.regions, h'.size_eq, h'.unused, h'.chain, h'.free_object, h'.free_nodup,
    fun b hb i hu => ?_, fun b hb hu => ?_,
    List.pairwise_cons.2 ⟨fun b hb hkind hptr => ?_, h.distinct⟩⟩
  · rcases List.mem_cons.1 hb with rfl | hb
    · cases hu
    · exact h'.small b hb i hu
  · rcases List.mem_cons.1 hb with rfl | hb
    · exact ⟨_, List.mem_cons_self, rfl, rfl, hsize⟩
    · exact h'.large b hb hu
  · obtain ⟨r, hr, -, hrp, -⟩ := h.large b hb (hkind.1 rfl)
    have hap := hf.apart r hr
    have hpos := hf.pages_pos
    have hpos' := h.regions.pages_pos r hr
    have heq : ptr = r.ptr := hptr.trans hrp.symm
    simp only [Region.stop, pageSize] at hap
    omega

/-- Where there are objects the allocator has been initialized. -/
theorem Inv.initialized (h : Inv w free) (ho : Object w.regions i o) :
    w.heap.initialized = true := by
  by_contra hc
  rw [Bool.not_eq_true] at hc
  obtain ⟨r, hr, -⟩ := ho
  rw [h.unused hc] at hr
  cases hr

/-- The head of a free list is a pointer, so it fits a header. -/
theorem Inv.freeList_lt (h : Inv w free) (i : Fin 8) : (w.heap.slabs i).freeList < 2 ^ 64 := by
  have hc := h.chain i
  cases hl : free i with
  | nil =>
    have hz := hc.nil_iff.1 hl
    omega
  | cons q l =>
    have hq : q ∈ free i := by
      rw [hl]
      exact List.mem_cons_self
    have := h.regions.object_lt (h.free_object i q hq)
    rw [hl] at hc
    rw [hc.1]
    omega

/-- The heap after an object of a class is put back. -/
def putBack (heap : Heap) (i : Fin 8) (o : ℕ) : Heap :=
  { heap.setSlab i { heap.slabs i with
      freeList := o
      frees := add64 (heap.slabs i).frees 1 } with
    mem := heap.mem.store o 8 (heap.slabs i).freeList }

/-- **`kfree` finds the class in the header** and puts the object back. No
page is given back. -/
theorem kfree_of_marked {heap : Heap} (hsz : ∀ j, (heap.slabs j).size = sizes j)
    (hmark : Marked heap.mem i o) : kfree heap (o + headerSize) = (putBack heap i o, none) := by
  have hle := sizes_le i
  have hidx : sizeToIndex heap (sizes i) = some i := by
    simp only [sizeToIndex, hsz]
    exact find_sizes i
  have hne : o + headerSize ≠ 0 := by
    simp only [headerSize]
    omega
  simp only [kfree, if_neg hne, Nat.add_sub_cancel, hmark.magic, hmark.size, ne_eq, not_true,
    if_false, if_neg (not_lt.2 hle), hidx, putBack]

theorem Inv.kfree_eq (h : Inv w free) (ho : Object w.regions i o)
    (hmark : Marked w.heap.mem i o) :
    (Kmalloc.kfree w.heap (o + headerSize)).1 = putBack w.heap i o := by
  rw [kfree_of_marked (h.size_eq (h.initialized ho)) hmark]

/-- Putting an object back writes to its own header only. -/
theorem Inv.putBack_sameHeader (h : Inv w free) (ho : Object w.regions i o)
    (hq : Object w.regions j q) (hne : ¬ (i = j ∧ o = q)) :
    SameHeader w.heap.mem (putBack w.heap i o).mem q := by
  intro x h1 h2
  have hap := h.regions.object_apart ho hq
  have hi := sizes_ge i
  have hj := sizes_ge j
  simp only [headerSize] at h2
  exact ByteMem.store_of_not_mem (by omega)

/-- The free list of the class gets a new head, the others stay. -/
theorem Inv.putBack_chain (h : Inv w free) (ho : Object w.regions i o) (hnot : o ∉ free i)
    (j : Fin 8) :
    Chain (putBack w.heap i o).mem ((putBack w.heap i o).slabs j).freeList
      (Function.update free i (o :: free i) j) := by
  by_cases hji : j = i
  · subst hji
    simp only [putBack, Heap.setSlab, Function.update_self]
    refine (h.chain j).push (h.freeList_lt j) (h.regions.object_ne_zero ho) fun q hq => ?_
    have hne : ¬ (j = j ∧ o = q) := by
      rintro ⟨-, rfl⟩
      exact hnot hq
    have hap := h.regions.object_apart ho (h.free_object j q hq)
    have hge := sizes_ge j
    omega
  · simp only [Function.update_of_ne hji]
    have hlist : ((putBack w.heap i o).slabs j).freeList = (w.heap.slabs j).freeList := by
      simp only [putBack, Heap.setSlab, Function.update_of_ne hji]
    rw [hlist]
    refine chain_of_sameHeader (h.chain j) fun q hq => ?_
    exact h.putBack_sameHeader ho (h.free_object j q hq) fun hc => hji hc.1.symm

/-- The members of the free lists after an object is put back. -/
theorem mem_update_cons {j : Fin 8} (hq : q ∈ Function.update free i (o :: free i) j) :
    (j = i ∧ q = o) ∨ q ∈ free j := by
  by_cases hji : j = i
  · subst hji
    rw [Function.update_self, List.mem_cons] at hq
    exact hq.imp_left fun hq => ⟨rfl, hq⟩
  · rw [Function.update_of_ne hji] at hq
    exact Or.inr hq

/-- **Freeing a live object** puts it at the head of its own class's list. -/
theorem Inv.kfree {b : Block} (h : Inv w free) (hb : b ∈ w.live) (hu : b.use = .slab i) :
    ∃ o, b.ptr = o + headerSize ∧ Inv ⟨(kfree w.heap b.ptr).1, w.regions,
      w.live.filter fun b' => b'.ptr ≠ b.ptr⟩ (Function.update free i (o :: free i)) := by
  obtain ⟨o, hp, hobj, hnot, hmark⟩ := h.small b hb i hu
  have hi := h.initialized hobj
  have hfree : (Kmalloc.kfree w.heap b.ptr).1 = putBack w.heap i o := by
    rw [hp]
    exact h.kfree_eq hobj hmark
  rw [hfree]
  refine ⟨o, hp, h.regions, fun _ j => (setSlab_size (by rfl) j).trans (h.size_eq hi j),
    fun hf => absurd (hi.symm.trans hf) (by decide), h.putBack_chain hobj hnot, fun j q hq => ?_,
    (Function.forall_update_iff free fun _ l => l.Nodup).2
      ⟨List.nodup_cons.2 ⟨hnot, h.free_nodup i⟩, fun j _ => h.free_nodup j⟩,
    fun b' hb' j hu' => ?_, fun b' hb' hu' => ?_, h.distinct.sublist List.filter_sublist⟩
  · rcases mem_update_cons hq with ⟨rfl, rfl⟩ | hq
    · exact hobj
    · exact h.free_object j q hq
  · -- the other live objects are not the one that was freed
    rw [List.mem_filter, decide_eq_true_eq] at hb'
    obtain ⟨p, hp', hobj', hnot', hmark'⟩ := h.small b' hb'.1 j hu'
    have hne : o ≠ p := by
      rintro rfl
      exact hb'.2 (hp'.trans hp.symm)
    refine ⟨p, hp', hobj', fun hin => ?_, ?_⟩
    · rcases mem_update_cons hin with ⟨-, rfl⟩ | hin
      · exact hne rfl
      · exact hnot' hin
    · exact (h.putBack_sameHeader hobj hobj' fun hc => hne hc.2).marked hmark'
  · rw [List.mem_filter] at hb'
    exact h.large b' hb'.1 hu'

end Kmalloc

end Kos
