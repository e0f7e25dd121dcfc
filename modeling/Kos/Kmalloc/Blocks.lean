import Kos.Kmalloc.Invariant
/-!
# Kmalloc — the blocks handed out

The class of a request is chosen from its bare size, and the header
comes out of the same slot: a block stays in its slot exactly when its
size and a header fit the class. In a run all of whose small requests do
so, every block lies in the pages obtained for it, apart from every
other live block and from the header of every other object; the first
request that does not fit gets a block that breaks this at once.
-/

namespace Kos

namespace Kmalloc

variable {w : World} {free : Fin 8 → List ℕ} {i j : Fin 8} {o size answer : ℕ}

/-! ## What a call can do -/

/-- **All an allocation can do**, once the caches are set up. -/
inductive Outcome (h : Heap) (size answer : ℕ) : Result → Prop
  | null (request : Option ℕ) (hreq : request = none ∨ answer = 0)
      (hsmall : ∀ i, useOf size = .slab i → size ≠ 0 →
        (h.slabs i).freeList = 0 ∧ answer = 0) : Outcome h size answer ⟨h, 0, request⟩
  | large (hsize : useOf size = .large) (hans : answer ≠ 0) :
      Outcome h size answer
        ⟨{ h with
            mem := h.mem.fill answer (mul64 (add64 size (pageSize - 1) / pageSize) pageSize) 0 },
          answer, some (add64 size (pageSize - 1) / pageSize)⟩
  | take (i : Fin 8) (hsize : useOf size = .slab i) (hne : size ≠ 0)
      (hlist : (h.slabs i).freeList ≠ 0) :
      Outcome h size answer ⟨(takeObject h i).1, (takeObject h i).2, none⟩
  | carve (i : Fin 8) (hsize : useOf size = .slab i) (hne : size ≠ 0)
      (hlist : (h.slabs i).freeList = 0) (hans : answer ≠ 0) :
      Outcome h size answer ⟨(takeObject (carve h i answer) i).1,
        (takeObject (carve h i answer) i).2, some 1⟩

theorem kmalloc_outcome {h : Heap} (hsz : ∀ i, ((ready h).slabs i).size = sizes i)
    (size answer : ℕ) : Outcome (ready h) size answer (kmalloc h size answer) := by
  unfold ready at hsz ⊢
  simp only [kmalloc]
  generalize (if h.initialized = true then h else kmallocInit h) = g at hsz ⊢
  by_cases h0 : size = 0
  · rw [if_pos h0]
    exact .null none (Or.inl rfl) fun _ _ hne => absurd h0 hne
  rw [if_neg h0]
  by_cases hbig : size > kmallocMaxSize
  · rw [if_pos hbig]
    have hu := useOf_large_iff.2 hbig
    by_cases ha : answer = 0
    · rw [if_neg (not_not.2 ha)]
      exact .null _ (Or.inr ha) fun i hs => by rw [hu] at hs; cases hs
    · rw [if_pos ha]
      exact .large hu ha
  · rw [if_neg hbig]
    -- a request up to the largest class has a class, and the scan finds it
    obtain ⟨i, hu⟩ : ∃ i, useOf size = .slab i := by
      cases hu : useOf size with
      | slab i => exact ⟨i, rfl⟩
      | large => exact absurd (useOf_large_iff.1 hu) hbig
    have hidx : sizeToIndex g size = some i := by
      simp only [sizeToIndex, hsz]
      exact useOf_slab hu
    simp only [hidx]
    by_cases hl : (g.slabs i).freeList = 0
    · rw [if_neg (not_not.2 hl)]
      by_cases ha : answer = 0
      · rw [if_pos ha]
        refine .null _ (Or.inr ha) fun j hs _ => ?_
        obtain rfl : i = j := Use.slab.inj (hu.symm.trans hs)
        exact ⟨hl, ha⟩
      · rw [if_neg ha]
        exact .carve i hu h0 hl ha
    · rw [if_pos hl]
      exact .take i hu h0 hl

/-- The page allocator answers a call with fresh pages or with `NULL`. -/
def AnswerOk (w : World) (size answer : ℕ) : Prop :=
  ∀ pages, (kmalloc w.heap size answer).request = some pages → answer ≠ 0 →
    Fresh w.regions answer pages

/-- The pages of a large request hold it. -/
theorem large_pages (hlt : size < 2 ^ 64) (hpos : 0 < add64 size (pageSize - 1) / pageSize) :
    size ≤ pageSize * (add64 size (pageSize - 1) / pageSize) ∧
      mul64 (add64 size (pageSize - 1) / pageSize) pageSize =
        pageSize * (add64 size (pageSize - 1) / pageSize) := by
  simp only [add64, mul64, pageSize] at *
  omega

/-- A page is split for a class, and nothing is handed out yet. -/
def World.carved (w : World) (i : Fin 8) (page : ℕ) : World :=
  ⟨carve w.heap i page, ⟨page, 1, .slab i⟩ :: w.regions, w.live⟩

/-- The first free object of a class is handed out. -/
def World.taken (w : World) (i : Fin 8) (o size : ℕ) : World :=
  ⟨(takeObject w.heap i).1, w.regions, ⟨o + headerSize, size, .slab i⟩ :: w.live⟩

/-- **What a request does to the world**, with the free lists named. -/
inductive Served (w : World) (free : Fin 8 → List ℕ) (size answer : ℕ) :
    World → (Fin 8 → List ℕ) → Prop
  | refused : Served w free size answer w free
  | large (mem' : ByteMem) (pages : ℕ) (hsize : useOf size = .large)
      (hf : Fresh w.regions answer pages) (hfit : size ≤ pageSize * pages)
      (hm : ∀ x, x < answer ∨ answer + pageSize * pages ≤ x → mem' x = w.heap.mem x) :
      Served w free size answer ⟨{ w.heap with mem := mem' },
        ⟨answer, pages, .large⟩ :: w.regions, ⟨answer, size, .large⟩ :: w.live⟩ free
  | take (i : Fin 8) (o : ℕ) (rest : List ℕ) (hsize : useOf size = .slab i)
      (hfree : free i = o :: rest) :
      Served w free size answer (w.taken i o size) (Function.update free i rest)
  | carve (i : Fin 8) (rest : List ℕ) (hsize : useOf size = .slab i) (hnil : free i = [])
      (hf : Fresh w.regions answer 1)
      (hslots : slots answer (sizes i) (pageSize / sizes i) = answer :: rest) :
      Served w free size answer ((w.carved i answer).taken i answer size)
        (Function.update
          (Function.update free i (slots answer (sizes i) (pageSize / sizes i))) i rest)

/-- **A request is served or refused**, and what is live grows by what it
returns. -/
theorem Inv.served (h : Inv w free) (hans : AnswerOk w size answer) (hlt : size < 2 ^ 64) :
    ∃ free', Served { w with heap := Kmalloc.ready w.heap } free size answer
      (w.record size answer (kmalloc w.heap size answer)) free' := by
  obtain ⟨hr, hi⟩ := h.ready
  have hout := kmalloc_outcome (hr.size_eq hi) size answer
  unfold AnswerOk at hans
  generalize kmalloc w.heap size answer = res at hout hans ⊢
  cases hout with
  | null request hreq hsmall =>
    refine ⟨free, ?_⟩
    -- a null answer is not recorded, with or without a request for pages
    have heq : w.record size answer ⟨Kmalloc.ready w.heap, 0, request⟩ =
        { w with heap := Kmalloc.ready w.heap } := by
      rcases hreq with rfl | rfl
      · rfl
      · cases request <;> simp [World.record]
    rw [heq]
    exact .refused
  | large hsize ha =>
    have hf := hans _ rfl ha
    obtain ⟨hfit, hfill⟩ := large_pages hlt hf.pages_pos
    refine ⟨free, ?_⟩
    simp only [World.record, if_neg ha, hsize]
    refine .large _ _ hsize hf hfit fun x hx => ByteMem.fill_of_not_mem ?_
    rw [hfill]
    omega
  | take i hsize hne hlist =>
    obtain ⟨o, rest, hfree⟩ : ∃ o rest, free i = o :: rest := by
      refine List.exists_cons_of_ne_nil fun hnil => hlist ?_
      exact (hr.chain i).nil_iff.1 hnil
    obtain ⟨hptr, -⟩ := hr.take hi hfree size
    simp only [World.record, hptr, hsize]
    rw [if_neg (by simp only [headerSize]; omega)]
    exact ⟨_, .take i o rest hsize hfree⟩
  | carve i hsize hne hlist ha =>
    have hf := hans 1 rfl ha
    have hnil := (hr.chain i).nil_iff.2 hlist
    have hc := hr.carve hi hnil hf
    -- a page holds an object at least, and the first one is served
    obtain ⟨n, hn⟩ : ∃ n, pageSize / sizes i = n + 1 :=
      ⟨pageSize / sizes i - 1, by have := (sizes_objs i).2; omega⟩
    have hslots : slots answer (sizes i) (pageSize / sizes i) =
        answer :: slots (answer + sizes i) (sizes i) n := by rw [hn]; rfl
    obtain ⟨hptr, -⟩ := @Inv.take _ _ i answer (slots (answer + sizes i) (sizes i) n) hc hi
      (by rw [Function.update_self, hslots]) size
    simp only [World.record, hptr, hsize, if_neg ha]
    rw [if_neg (by simp only [headerSize]; omega)]
    exact ⟨_, .carve i _ hsize hnil hf hslots⟩

/-- Serving a request keeps the invariant. -/
theorem Inv.of_served {w' : World} {free' : Fin 8 → List ℕ} (h : Inv w free)
    (hi : w.heap.initialized = true) (hs : Served w free size answer w' free') :
    Inv w' free' := by
  cases hs with
  | refused => exact h
  | large mem' pages hsize hf hfit hm => exact h.addLarge hi hf hfit hm
  | take i o rest hsize hfree => exact (h.take hi hfree size).2
  | carve i rest hsize hnil hf hslots =>
    have hc : Inv (w.carved i answer) _ := h.carve hi hnil hf
    exact (hc.take hi (by rw [Function.update_self, hslots]) size).2

/-- **`kmalloc` keeps the invariant**, for requests of any size. A pointer
returned is the next live block. -/
theorem Inv.record_kmalloc (h : Inv w free) (hans : AnswerOk w size answer) (hlt : size < 2 ^ 64) :
    ∃ free', Inv (w.record size answer (kmalloc w.heap size answer)) free' := by
  obtain ⟨hr, hi⟩ := h.ready
  obtain ⟨free', hs⟩ := h.served hans hlt
  exact ⟨free', hr.of_served hi hs⟩

/-! ## Blocks that have room -/

/-- Every live small block leaves room for a header in its class. -/
def Roomy (live : List Block) : Prop :=
  ∀ b ∈ live, ∀ i, b.use = .slab i → b.size + headerSize ≤ sizes i

/-- **Where a live block lies**: a small one in its slot, after the header,
and a large one in its own pages. -/
theorem Inv.block_inside (h : Inv w free) (hroom : Roomy w.live) {b : Block} (hb : b ∈ w.live) :
    ∃ r ∈ w.regions, r.use = b.use ∧ (b.use = .large → r.ptr = b.ptr) ∧ r.ptr ≤ b.ptr ∧
      b.ptr + b.size ≤ r.stop := by
  cases hu : b.use with
  | slab i =>
    obtain ⟨o, hp, hobj, -⟩ := h.small b hb i hu
    obtain ⟨r, hr, hru, hlo, hhi⟩ := h.regions.object_inside hobj
    have := hroom b hb i hu
    exact ⟨r, hr, hru, fun hc => Use.noConfusion hc, by omega, by omega⟩
  | large =>
    obtain ⟨r, hr, hru, hrp, hsize⟩ := h.large b hb hu
    exact ⟨r, hr, hru, fun _ => hrp, by omega, by rw [Region.stop]; omega⟩

/-- Regions of different use are apart. -/
theorem RegionsOk.apart_of_use {regions : List Region} {r r' : Region} (h : RegionsOk regions)
    (hr : r ∈ regions) (hr' : r' ∈ regions) (hne : r.use ≠ r'.use) : r.Apart r' :=
  h.apart.forall hr hr' fun heq => hne (heq ▸ rfl)

/-- **A live block covers no header**, neither its own nor another's. -/
theorem Inv.block_off_headers (h : Inv w free) (hroom : Roomy w.live) {b : Block}
    (hb : b ∈ w.live) (ho : Object w.regions i o) :
    b.ptr + b.size ≤ o ∨ o + headerSize ≤ b.ptr := by
  have hge := sizes_ge i
  cases hu : b.use with
  | slab j =>
    obtain ⟨p, hp, hobj, -⟩ := h.small b hb j hu
    have hsize := hroom b hb j hu
    simp only [headerSize] at *
    rcases h.regions.object_apart hobj ho with ⟨-, rfl⟩ | hap | hap <;> omega
  | large =>
    obtain ⟨r, hr, hru, -, hlo, hhi⟩ := h.block_inside hroom hb
    obtain ⟨r', hr', hru', hlo', hhi'⟩ := h.regions.object_inside ho
    have hap : r.Apart r' := h.regions.apart_of_use hr hr' (by rw [hru, hu, hru']; simp)
    simp only [Region.Apart, headerSize] at *
    omega

/-- **Two live blocks do not overlap.** -/
theorem Inv.blocks_apart (h : Inv w free) (hroom : Roomy w.live) {b b' : Block}
    (hb : b ∈ w.live) (hb' : b' ∈ w.live) (hd : b.Differs b') :
    b.ptr + b.size ≤ b'.ptr ∨ b'.ptr + b'.size ≤ b.ptr := by
  obtain ⟨r, hr, hru, hrp, hlo, hhi⟩ := h.block_inside hroom hb
  obtain ⟨r', hr', hru', hrp', hlo', hhi'⟩ := h.block_inside hroom hb'
  cases hu : b.use with
  | slab i =>
    cases hu' : b'.use with
    | slab j =>
      obtain ⟨o, hp, hobj, -⟩ := h.small b hb i hu
      obtain ⟨o', hp', hobj', -⟩ := h.small b' hb' j hu'
      have h1 := hroom b hb i hu
      have h2 := hroom b' hb' j hu'
      have hne := hd (by simp [hu, hu'])
      -- two objects, each with its block in it
      rcases h.regions.object_apart hobj hobj' with ⟨-, rfl⟩ | hap | hap <;> omega
    | large =>
      have hap : r.Apart r' := h.regions.apart_of_use hr hr' (by rw [hru, hru', hu, hu']; simp)
      simp only [Region.Apart] at hap
      omega
  | large =>
    -- a large block has pages of its own
    have hap : r.Apart r' := by
      cases hu' : b'.use with
      | slab j => exact h.regions.apart_of_use hr hr' (by rw [hru, hru', hu, hu']; simp)
      | large =>
        have hne := hd (by simp [hu, hu'])
        refine h.regions.apart.forall hr hr' fun heq => hne ?_
        rw [← hrp hu, ← hrp' hu', heq]
    simp only [Region.Apart] at hap
    omega

/-! ## Runs -/

/-- The block a step hands out. -/
def World.returned (w : World) : Op → Option Block
  | .kmalloc size answer =>
    let r := kmalloc w.heap size.toNat answer
    if r.ptr = 0 then none else some ⟨r.ptr, size.toNat, useOf size.toNat⟩
  | .kzalloc size answer =>
    let r := kzalloc w.heap size.toNat answer
    if r.ptr = 0 then none else some ⟨r.ptr, size.toNat, useOf size.toNat⟩
  | _ => none

/-- **What a step may do**: the page allocator answers with fresh pages,
only live small blocks are freed, and clients write in live blocks. -/
def Op.Permitted (w : World) : Op → Prop
  | .kmalloc size answer => AnswerOk w size.toNat answer
  | .kzalloc size answer => AnswerOk w size.toNat answer
  | .kfree ptr => ∃ b ∈ w.live, b.ptr = ptr ∧ b.use ≠ .large
  | .write addr _ => ∃ b ∈ w.live, b.ptr ≤ addr ∧ addr < b.ptr + b.size

/-- **A small request has room for the header in its class**, or is not
served: the class has no free object and the page allocator no page. -/
def FitsClass (w : World) (size answer : ℕ) : Prop :=
  ∀ i, useOf size = .slab i → size ≠ 0 →
    size + headerSize ≤ sizes i ∨ ((ready w.heap).slabs i).freeList = 0 ∧ answer = 0

/-- The requests of a step fit. -/
def Op.Fits (w : World) : Op → Prop
  | .kmalloc size answer => FitsClass w size.toNat answer
  | .kzalloc size answer => FitsClass w size.toNat answer
  | _ => True

/-- **What a block handed out must satisfy**: it lies in the pages obtained
for it, apart from every block that was live and from the header of
every other object. -/
structure BlockOk (w w' : World) (b : Block) : Prop where
  inside : ∃ r ∈ w'.regions, r.use = b.use ∧ (b.use = .large → r.ptr = b.ptr) ∧
    r.ptr ≤ b.ptr ∧ b.ptr + b.size ≤ r.stop
  live : ∀ b' ∈ w.live, b.ptr + b.size ≤ b'.ptr ∨ b'.ptr + b'.size ≤ b.ptr
  headers : ∀ i o, Object w'.regions i o → o + headerSize ≠ b.ptr →
    b.ptr + b.size ≤ o ∨ o + headerSize ≤ b.ptr

/-- A step that hands out a block adds it to the live ones. -/
theorem record_live (w : World) (size answer : ℕ) {res : Result} (h : res.ptr ≠ 0) :
    (w.record size answer res).live = ⟨res.ptr, size, useOf size⟩ :: w.live :=
  if_neg h

theorem record_live_null (w : World) (size answer : ℕ) {res : Result} (h : res.ptr = 0) :
    (w.record size answer res).live = w.live :=
  if_pos h

/-- Requests that fit keep the live blocks roomy. -/
theorem Inv.record_roomy (h : Inv w free) (hroom : Roomy w.live)
    (hfit : FitsClass w size answer) :
    Roomy (w.record size answer (kmalloc w.heap size answer)).live := by
  obtain ⟨hr, hi⟩ := h.ready
  have hout := kmalloc_outcome (hr.size_eq hi) size answer
  by_cases h0 : (kmalloc w.heap size answer).ptr = 0
  · rw [record_live_null w size answer h0]
    exact hroom
  rw [record_live w size answer h0]
  intro b hb i hu
  rcases List.mem_cons.1 hb with rfl | hb
  · generalize kmalloc w.heap size answer = res at hout h0
    cases hout with
    | null request hreq hsmall => exact absurd rfl h0
    | large hsize ha => rw [hsize] at hu; cases hu
    | take j hsize hne hlist =>
      obtain rfl : j = i := Use.slab.inj (hsize.symm.trans hu)
      exact (hfit j hsize hne).resolve_right fun hc => hlist hc.1
    | carve j hsize hne hlist ha =>
      obtain rfl : j = i := Use.slab.inj (hsize.symm.trans hu)
      exact (hfit j hsize hne).resolve_right fun hc => ha hc.2
  · exact hroom b hb i hu

/-- The pointer of `kzalloc` is that of `kmalloc`. -/
theorem kzalloc_eq (h : Heap) (size answer : ℕ) :
    (kzalloc h size answer).ptr = (kmalloc h size answer).ptr ∧
      (kzalloc h size answer).request = (kmalloc h size answer).request := by
  unfold kzalloc
  dsimp only
  split <;> exact ⟨rfl, rfl⟩

/-- **Where nothing was cut short, a block handed out is as it must be.** -/
theorem Inv.blockOk {b : Block} {w' : World} {free' : Fin 8 → List ℕ} (h' : Inv w' free')
    (hroom' : Roomy w'.live) (hlive : w'.live = b :: w.live) : BlockOk w w' b := by
  have hb : b ∈ w'.live := by rw [hlive]; exact List.mem_cons_self
  refine ⟨h'.block_inside hroom' hb, fun b' hb' => ?_, fun i o ho _ =>
    h'.block_off_headers hroom' hb ho⟩
  have hd := h'.distinct
  rw [hlive, List.pairwise_cons] at hd
  exact h'.blocks_apart hroom' hb (by rw [hlive]; exact List.mem_cons_of_mem b hb') (hd.1 b' hb')

/-- The block a request returns, whichever of the two functions it is. -/
theorem record_kzalloc (h : Inv w free) (hroom : Roomy w.live) (hans : AnswerOk w size answer)
    (hlt : size < 2 ^ 64) (hfit : FitsClass w size answer) :
    ∃ free', Inv (w.record size answer (kzalloc w.heap size answer)) free' ∧
      Roomy (w.record size answer (kzalloc w.heap size answer)).live := by
  obtain ⟨free', h'⟩ := h.record_kmalloc hans hlt
  have hroom' := h.record_roomy hroom hfit
  by_cases h0 : (kmalloc w.heap size answer).ptr = 0
  · have heq : kzalloc w.heap size answer = kmalloc w.heap size answer := by
      simp only [kzalloc, if_neg (not_not.2 h0)]
    rw [heq]
    exact ⟨free', h', hroom'⟩
  · -- the cleared bytes are those of the new block, which covers no header
    have heq : w.record size answer (kzalloc w.heap size answer) =
        { w.record size answer (kmalloc w.heap size answer) with
          heap := { (kmalloc w.heap size answer).heap with
            mem := (kmalloc w.heap size answer).heap.mem.fill
              (kmalloc w.heap size answer).ptr size 0 } } := by
      simp only [kzalloc, if_pos h0]
      rfl
    rw [heq]
    refine ⟨free', h'.setMem fun i o ho => ?_, hroom'⟩
    intro x h1 h2
    have hb : (⟨(kmalloc w.heap size answer).ptr, size, useOf size⟩ : Block) ∈
        (w.record size answer (kmalloc w.heap size answer)).live := by
      rw [record_live w size answer h0]
      exact List.mem_cons_self
    have hoff := h'.block_off_headers hroom' hb ho
    exact ByteMem.fill_of_not_mem (by simp only at hoff; omega)

/-- **One step of a run in which every request fits.** -/
theorem step_inv (h : Inv w free) (hroom : Roomy w.live) {op : Op} (hperm : op.Permitted w)
    (hfit : op.Fits w) : ∃ free', Inv (w.step op) free' ∧ Roomy (w.step op).live := by
  cases op with
  | kmalloc size answer =>
    obtain ⟨free', h'⟩ := h.record_kmalloc hperm size.toNat_lt
    exact ⟨free', h', h.record_roomy hroom hfit⟩
  | kzalloc size answer => exact record_kzalloc h hroom hperm size.toNat_lt hfit
  | kfree ptr =>
    obtain ⟨b, hb, rfl, hu⟩ := hperm
    cases hu' : b.use with
    | large => exact absurd hu' hu
    | slab i =>
      obtain ⟨o, -, h'⟩ := h.kfree hb hu'
      exact ⟨_, h', fun b' hb' => hroom b' (List.mem_of_mem_filter hb')⟩
  | write addr byte =>
    obtain ⟨b, hb, h1, h2⟩ := hperm
    refine ⟨free, h.setMem fun i o ho => ?_, hroom⟩
    intro x hx1 hx2
    have hoff := h.block_off_headers hroom hb ho
    exact Function.update_of_ne (by omega) ..

/-- A run in which every request fits. -/
def FittingRun (mem : ByteMem) (ops : List Op) : Prop :=
  Allowed World.step (fun w op => op.Permitted w ∧ op.Fits w) (World.boot mem) ops

theorem FittingRun.inv {mem : ByteMem} {ops : List Op} (h : FittingRun mem ops) :
    ∃ free, Inv (runFrom World.step (World.boot mem) ops) free ∧
      Roomy (runFrom World.step (World.boot mem) ops).live := by
  refine Allowed.invariant (P := fun w => ∃ free, Inv w free ∧ Roomy w.live) ?_ h
    ⟨_, inv_boot mem, fun b hb => by simp [World.boot] at hb⟩
  rintro w op ⟨free, hw, hroom⟩ ⟨hperm, hfit⟩
  exact step_inv hw hroom hperm hfit

/-! ## Requests that do not fit -/

/-- **A block longer than its slot breaks the rule**: it covers the header
of the next object of its page, or, in the last slot, leaves the page. -/
theorem not_blockOk_of_long {w' : World} {b : Block} (hreg : RegionsOk w'.regions)
    (ho : Object w'.regions i o) (hp : b.ptr = o + headerSize) (hu : b.use = .slab i)
    (hpos : 0 < b.size) (hlong : sizes i < b.size + headerSize) : ¬ BlockOk w w' b := by
  rintro ⟨⟨r', hr', hru', -, hlo, hhi⟩, -, hheaders⟩
  obtain ⟨r, hr, hru, k, hk, rfl⟩ := ho
  have hge := sizes_ge i
  have hobjs := (sizes_objs i).1
  have hslot := slot_le (c := sizes i) hk
  have hpages := hreg.slab_pages r hr i hru
  simp only [headerSize] at *
  rcases Nat.lt_or_ge (k + 1) (pageSize / sizes i) with hnext | hlast
  -- the next slot of the page has its header where the block goes on
  · have hmul : (k + 1) * sizes i = k * sizes i + sizes i := by rw [Nat.add_mul, Nat.one_mul]
    have hq := hheaders i (r.ptr + (k + 1) * sizes i) ⟨r, hr, hru, k + 1, hnext, rfl⟩ (by omega)
    omega
  · -- the last slot ends with the page
    have hn : pageSize / sizes i = k + 1 := by omega
    have hend : r.ptr + k * sizes i + sizes i = r.stop := by
      rw [hn, Nat.add_mul, Nat.one_mul] at hobjs
      rw [Region.stop, hpages]
      omega
    by_cases hrr : r = r'
    · subst hrr
      omega
    · have hap : r.Apart r' := hreg.apart.forall hr hr' hrr
      have hq := hheaders i r'.ptr ⟨r', hr', hru'.trans hu, 0, by omega, by omega⟩
      simp only [Region.Apart] at hap
      omega

/-- A small request that does not fit is served, in an object too short
for it. -/
theorem Inv.unfit_served (h : Inv w free) (hans : AnswerOk w size answer) (hlt : size < 2 ^ 64)
    (hfit : ¬ FitsClass w size answer) : (kmalloc w.heap size answer).ptr ≠ 0 ∧
      ¬ BlockOk w (w.record size answer (kmalloc w.heap size answer))
        ⟨(kmalloc w.heap size answer).ptr, size, useOf size⟩ := by
  obtain ⟨hr, hi⟩ := h.ready
  unfold FitsClass at hfit
  push Not at hfit
  obtain ⟨i, hu, hne, hlong, hserved⟩ := hfit
  have hout := kmalloc_outcome (hr.size_eq hi) size answer
  have hptr : (kmalloc w.heap size answer).ptr ≠ 0 := by
    generalize kmalloc w.heap size answer = res at hout
    cases hout with
    | null request hreq hsmall =>
      have hnone := hsmall i hu hne
      exact absurd hnone.2 (hserved hnone.1)
    | large hsize ha => exact ha
    | take j hsize hne hlist => simp [takeObject, headerSize]
    | carve j hsize hne hlist ha => simp [takeObject, headerSize]
  refine ⟨hptr, ?_⟩
  obtain ⟨free', h'⟩ := h.record_kmalloc hans hlt
  have hb : (⟨(kmalloc w.heap size answer).ptr, size, useOf size⟩ : Block) ∈
      (w.record size answer (kmalloc w.heap size answer)).live := by
    rw [record_live w size answer hptr]
    exact List.mem_cons_self
  -- the block is in an object of its class, and longer than what follows the header
  obtain ⟨o, hp, hobj, -⟩ := h'.small _ hb i hu
  exact not_blockOk_of_long h'.regions hobj hp hu (Nat.pos_of_ne_zero hne) hlong

/-- The rule reads the pages obtained and not the rest of the world. -/
theorem BlockOk.of_regions {w' w'' : World} {b : Block} (h : BlockOk w w' b)
    (hreg : w''.regions = w'.regions) : BlockOk w w'' b := by
  obtain ⟨h1, h2, h3⟩ := h
  exact ⟨by rwa [hreg], h2, by rwa [hreg]⟩

/-- **Blocks are as they must be exactly as long as requests fit.** After
any run in which every small request left room for its header, the next
block handed out lies in its pages, apart from every other live block
and every other header, if and only if the request for it fits. -/
theorem fitting_blocks {mem : ByteMem} {ops : List Op} (hrun : FittingRun mem ops) (op : Op)
    (hperm : op.Permitted (runFrom World.step (World.boot mem) ops)) :
    (∀ b, (runFrom World.step (World.boot mem) ops).returned op = some b →
      BlockOk (runFrom World.step (World.boot mem) ops)
        ((runFrom World.step (World.boot mem) ops).step op) b) ↔
      op.Fits (runFrom World.step (World.boot mem) ops) := by
  obtain ⟨free, h, hroom⟩ := hrun.inv
  generalize runFrom World.step (World.boot mem) ops = w at *
  -- `kzalloc` obtains the pages `kmalloc` does
  have hsame : ∀ size answer, (w.record size answer (kzalloc w.heap size answer)).regions =
      (w.record size answer (kmalloc w.heap size answer)).regions := fun size answer => by
    simp only [World.record, (kzalloc_eq w.heap size answer).2]
  constructor
  · intro hok
    by_contra hfit
    cases op with
    | kmalloc size answer =>
      obtain ⟨hptr, hbad⟩ := h.unfit_served hperm size.toNat_lt hfit
      exact hbad (hok _ (if_neg hptr))
    | kzalloc size answer =>
      obtain ⟨hptr, hbad⟩ := h.unfit_served hperm size.toNat_lt hfit
      have heq := (kzalloc_eq w.heap size.toNat answer).1
      have hb := hok _ (if_neg (by rwa [heq]))
      rw [heq] at hb
      exact hbad (hb.of_regions (hsame _ _).symm)
    | kfree ptr => exact hfit trivial
    | write addr byte => exact hfit trivial
  · intro hfit b hb
    obtain ⟨free', h', hroom'⟩ := step_inv h hroom hperm hfit
    refine h'.blockOk hroom' ?_
    cases op with
    | kmalloc size answer =>
      simp only [World.returned] at hb
      split at hb
      · cases hb
      · rename_i h0
        cases hb
        exact record_live w _ answer h0
    | kzalloc size answer =>
      simp only [World.returned] at hb
      split at hb
      · cases hb
      · rename_i h0
        cases hb
        exact record_live w _ answer h0
    | kfree ptr => cases hb
    | write addr byte => cases hb

/-- A page that is fresh in an empty world. -/
theorem fresh_page : Fresh [] 0x100000 1 :=
  ⟨by decide, by decide, by decide, fun r hr => by cases hr⟩

/-- Two blocks of 40 bytes, in slots of 64. -/
theorem fitting_blocks_forty :
    FittingRun (fun _ => 0) [.kmalloc 40 0x100000] ∧
      BlockOk (runFrom World.step (World.boot fun _ => 0) [.kmalloc 40 0x100000])
        ((runFrom World.step (World.boot fun _ => 0) [.kmalloc 40 0x100000]).step (.kzalloc 40 0))
        ⟨0x100050, 40, .slab 2⟩ := by
  have huse : useOf 40 = .slab 2 := by decide
  have hfit : ∀ (w : World) (answer : ℕ), FitsClass w 40 answer := by
    intro w answer i hi _
    obtain rfl : (2 : Fin 8) = i := Use.slab.inj (huse.symm.trans hi)
    exact Or.inl (by decide)
  have hreq : (kmalloc (boot fun _ => 0) 40 0x100000).request = some 1 := by decide +kernel
  have hrun : FittingRun (fun _ => 0) [.kmalloc 40 0x100000] := by
    refine ⟨⟨?_, hfit _ _⟩, trivial⟩
    intro pages hp _
    obtain rfl : 1 = pages := Option.some.inj (hreq.symm.trans hp)
    exact fresh_page
  refine ⟨hrun, (fitting_blocks hrun (.kzalloc 40 0) ?_).2 (hfit _ _) _ ?_⟩
  · intro pages _ h0
    exact absurd rfl h0
  · decide +kernel

/-- **The first block of 16 bytes is the header of the next object.** -/
theorem sixteen_covers_header :
    (Op.kmalloc 16 0x100000).Permitted (World.boot fun _ => 0) ∧
      (World.boot fun _ => 0).returned (.kmalloc 16 0x100000) = some ⟨0x100010, 16, .slab 0⟩ ∧
      ¬ BlockOk (World.boot fun _ => 0) ((World.boot fun _ => 0).step (.kmalloc 16 0x100000))
        ⟨0x100010, 16, .slab 0⟩ := by
  have hreq : (kmalloc (boot fun _ => 0) 16 0x100000).request = some 1 := by decide +kernel
  refine ⟨?_, by decide +kernel, ?_⟩
  · intro pages hp _
    obtain rfl : 1 = pages := Option.some.inj (hreq.symm.trans hp)
    exact fresh_page
  · rintro ⟨-, -, hheaders⟩
    have hregions : ((World.boot fun _ => 0).step (.kmalloc 16 0x100000)).regions =
        [⟨0x100000, 1, .slab 0⟩] := by decide +kernel
    have hnext : Object ((World.boot fun _ => 0).step (.kmalloc 16 0x100000)).regions 0 0x100010 := by
      rw [hregions]
      exact ⟨_, List.mem_cons_self, rfl, 1, by decide, by decide⟩
    have := hheaders 0 0x100010 hnext (by decide)
    simp only [headerSize] at this
    omega

end Kmalloc

end Kos
