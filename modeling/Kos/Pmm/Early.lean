import Kos.Pmm.Physical
/-!
# Pmm — where the early allocator puts the bitmaps

The tracker of the early allocator has one bit a page and lies at 1 MB,
which is also the first page it hands out. The first zone's bitmap
therefore overwrites it, and from then on the tracker is a run of ones
followed by zeros: each later call takes the first page past the run or
panics. So the place of every bitmap can be read off the sizes alone
(`bitmapPos`), and no two bitmaps share a page.
-/

namespace Kos

namespace Pmm

variable {mem : ByteMem} {eb i k n top pages : ℕ} {s s' : Phys} {s₁ : State} {z w : ZoneIdx}

/-! ## The tracker -/

theorem earlyTest_eq (mem : ByteMem) (eb i : ℕ) : earlyTest mem eb i = mem.bit (8 * eb + i) := by
  have hbyte : (8 * eb + i) / 8 = eb + i / 8 := by omega
  have hbit : (8 * eb + i) % 8 = i % 8 := by omega
  have hlt : 2 ^ (i % 8) < 256 :=
    Nat.pow_lt_pow_right (by decide) (Nat.mod_lt i (by decide))
  have hand : (mem (eb + i / 8) &&& UInt8.ofNat (1 <<< (i % 8))).toNat =
      ((mem (eb + i / 8)).toNat.testBit (i % 8)).toNat * 2 ^ (i % 8) := by
    rw [UInt8.toNat_and, UInt8.toNat_ofNat', Nat.one_shiftLeft, Nat.mod_eq_of_lt hlt,
      Nat.and_two_pow]
  rw [earlyTest, ByteMem.bit, hbyte, hbit]
  cases hb : (mem (eb + i / 8)).toNat.testBit (i % 8) with
  | false =>
    rw [hb, Bool.toNat_false, Nat.zero_mul] at hand
    rw [bne_eq_false_iff_eq]
    exact UInt8.toNat_inj.1 hand
  | true =>
    rw [hb, Bool.toNat_true, Nat.one_mul] at hand
    rw [bne_iff_ne]
    intro h0
    rw [h0] at hand
    exact absurd hand (Nat.two_pow_pos _).ne

theorem bit_earlySet (mem : ByteMem) (eb i k : ℕ) :
    (earlySet mem eb i).bit k = (decide (k = 8 * eb + i) || mem.bit k) := by
  have hlt : 2 ^ (i % 8) < 256 :=
    Nat.pow_lt_pow_right (by decide) (Nat.mod_lt i (by decide))
  rw [ByteMem.bit, ByteMem.bit, earlySet]
  by_cases hk : k / 8 = eb + i / 8
  · rw [hk, Function.update_self, UInt8.toNat_or, UInt8.toNat_ofNat', Nat.one_shiftLeft,
      Nat.mod_eq_of_lt hlt, Nat.testBit_or, Nat.testBit_two_pow, Bool.or_comm]
    congr 1
    exact decide_eq_decide.2 (by omega)
  · have hne : k ≠ 8 * eb + i := by omega
    rw [Function.update_of_ne hk, decide_eq_false hne, Bool.false_or]

theorem bit_earlyMark (mem : ByteMem) (eb i pages k : ℕ) :
    ((List.range pages).foldl (fun mem j => earlySet mem eb (i + j)) mem).bit k =
      (decide (8 * eb + i ≤ k ∧ k < 8 * eb + i + pages) || mem.bit k) :=
  ByteMem.bit_foldl_set (fun m j k => by rw [bit_earlySet, Nat.add_assoc]) mem pages k

theorem earlyFound_iff :
    earlyFound mem eb pages i = true ↔ ∀ j < pages, mem.bit (8 * eb + (i + j)) = false := by
  simp [earlyFound, earlyTest_eq]

/-- **The search returns the first candidate that fits.** -/
theorem earlySearch_spec {r : ℕ} : ∀ {n i}, earlySearch mem eb pages n i = some r →
    i ≤ r ∧ r < i + n ∧ earlyFound mem eb pages r = true ∧
      ∀ c, i ≤ c → c < r → earlyFound mem eb pages c = false := by
  intro n
  induction n with
  | zero => intro i h; cases h
  | succ n ih =>
    intro i h
    rw [earlySearch] at h
    split at h
    · rename_i hf
      cases h
      exact ⟨le_rfl, by omega, hf, fun c h1 h2 => by omega⟩
    · rename_i hf
      obtain ⟨h1, h2, h3, h4⟩ := ih h
      refine ⟨by omega, by omega, h3, fun c hc1 hc2 => ?_⟩
      rcases Nat.eq_or_lt_of_le hc1 with rfl | hlt
      · simpa using hf
      · exact h4 c hlt hc2

/-- **The tracker is a run of ones and then zeros.** Past the bytes the
first call zeroes, memory is as it was found. -/
structure Tracked (mem : ByteMem) (top : ℕ) : Prop where
  used : ∀ k < top, mem.bit (8 * 0x100000 + k) = true
  unused : ∀ k, top ≤ k → k < 8 * 32768 → mem.bit (8 * 0x100000 + k) = false

/-- **A search of the tracker finds its first zero or nothing.** A set bit
that spoils the run from the first zero on lies past the zeroed bytes,
so it spoils the run from every later candidate as well. -/
theorem Tracked.search (h : Tracked mem top) (hp : 0 < pages)
    (hs : earlySearch mem 0x100000 pages 65536 0 = some i) : i = top := by
  obtain ⟨-, hlt, hfound, hfirst⟩ := earlySearch_spec hs
  rw [earlyFound_iff] at hfound
  have hge : top ≤ i := by
    by_contra hlt'
    have h1 := h.used i (by omega)
    rw [← Nat.add_zero i, hfound 0 hp] at h1
    exact Bool.noConfusion h1
  by_contra hne
  have hspoilt := hfirst top (Nat.zero_le _) (by omega)
  rw [← Bool.not_eq_true, earlyFound_iff] at hspoilt
  push Not at hspoilt
  obtain ⟨j, hj, hset⟩ := hspoilt
  rw [Bool.ne_false_iff] at hset
  have hfar : 8 * 32768 ≤ top + j := by
    by_contra hnear
    rw [h.unused (top + j) (by omega) (by omega)] at hset
    exact Bool.noConfusion hset
  have hclear := hfound (top + j - i) (by omega)
  rw [show i + (top + j - i) = top + j by omega, hset] at hclear
  exact Bool.noConfusion hclear

/-! ## Where the bitmaps go -/

/-- The bytes of a zone's bitmap; an unpopulated zone has none. -/
def State.bitmapBytes (s₁ : State) (z : ZoneIdx) : ℕ :=
  if (s₁.zones z).totalPages = 0 then 0 else bitmapSize (s₁.zones z).span

/-- The length of the tracker's run after a bitmap of `n` bytes: the first
bitmap lies over the tracker and sets `8 * n` of its bits. -/
def nextTop (top n : ℕ) : ℕ :=
  if n = 0 then top else if top = 0 then 8 * n else top + bitmapPages n

/-- **The page of each zone's bitmap, counted from 1 MB on**, given the
sizes of the bitmaps. -/
def bitmapPos (bytes : ZoneIdx → ℕ) : ZoneIdx → ℕ
  | .dma => 0
  | .dma32 => nextTop 0 (bytes .dma)
  | .normal => nextTop (nextTop 0 (bytes .dma)) (bytes .dma32)

theorem bitmapPages_le (n : ℕ) : bitmapPages n ≤ n := by
  simp only [bitmapPages, pageSize]
  omega

theorem bitmapPages_pos (h : 0 < n) : 0 < bitmapPages n := by
  simp only [bitmapPages, pageSize]
  omega

theorem le_bitmapPages (n : ℕ) : n ≤ 4096 * bitmapPages n := by
  simp only [bitmapPages, pageSize]
  omega

theorem span_le_bitmapSize (span : ℕ) : span ≤ 8 * bitmapSize span := by
  simp only [bitmapSize]
  omega

theorem le_nextTop (top n : ℕ) : top ≤ nextTop top n := by
  unfold nextTop
  split
  · exact le_rfl
  · split <;> omega

/-- The run reaches past the pages of the bitmap. -/
theorem add_pages_le_nextTop (top : ℕ) (h : n ≠ 0) : top + bitmapPages n ≤ nextTop top n := by
  have hle := bitmapPages_le n
  rw [nextTop, if_neg h]
  split <;> omega

/-- **No two bitmaps share a page.** -/
theorem bitmapPos_apart (bytes : ZoneIdx → ℕ) (hzw : z.rank < w.rank) (hz : bytes z ≠ 0) :
    bitmapPos bytes z + bitmapPages (bytes z) ≤ bitmapPos bytes w := by
  have h1 : bytes .dma ≠ 0 → bitmapPages (bytes .dma) ≤ nextTop 0 (bytes .dma) := fun h => by
    have := add_pages_le_nextTop 0 h
    omega
  have h2 := le_nextTop (nextTop 0 (bytes .dma)) (bytes .dma32)
  cases z <;> cases w <;> simp only [ZoneIdx.rank] at hzw
  case dma.dma32 => simpa [bitmapPos] using h1 hz
  case dma.normal =>
    have := h1 hz
    simp only [bitmapPos]
    omega
  case dma32.normal => exact add_pages_le_nextTop _ hz
  all_goals omega

/-- A zone whose range and counters are those of a zone of the model with
private bitmaps. -/
structure PhysZone.Like (zone : PhysZone) (zone₁ : MemoryZone) : Prop where
  base : zone.basePfn = zone₁.basePfn
  stop : zone.endPfn = zone₁.endPfn
  total : zone.totalPages = zone₁.totalPages
  free : zone.freePages = zone₁.freePages

theorem PhysZone.Like.span {zone : PhysZone} {zone₁ : MemoryZone} (h : zone.Like zone₁) :
    zone.span = zone₁.span := by
  rw [PhysZone.span, MemoryZone.span, h.base, h.stop]

/-- **The bitmap phase after the zones `done`.** -/
structure Placing (s₁ : State) (done : List ZoneIdx) (top : ℕ) (s : Phys) : Prop where
  like : ∀ z, (s.zones z).Like (s₁.zones z)
  system : s.totalSystemPages = s₁.totalSystemPages
  /-- A zone without a bitmap keeps its `NULL`. -/
  null : ∀ z, (z ∈ done → s₁.bitmapBytes z = 0) → (s.zones z).bitmap = 0
  /-- Nothing is placed while the tracker does not exist. -/
  fresh : top = 0 → s.earlyBitmap = 0 ∧ ∀ z ∈ done, s₁.bitmapBytes z = 0
  started : top ≠ 0 → s.earlyBitmap = 0x100000 ∧ 64 ≤ top ∧ Tracked s.mem top
  placed : ∀ z ∈ done, s₁.bitmapBytes z ≠ 0 →
    (s.zones z).bitmap = 4096 * (0x100 + bitmapPos s₁.bitmapBytes z)
  ones : ∀ z ∈ done, s₁.bitmapBytes z ≠ 0 → ∀ k < 8 * s₁.bitmapBytes z,
    s.mem.bit (8 * (s.zones z).bitmap + k) = true

theorem placing_start (mem : ByteMem) (s₁ : State) : Placing s₁ [] 0 (Phys.ofMap mem s₁) where
  like _ := ⟨rfl, rfl, rfl, rfl⟩
  system := rfl
  null _ _ := rfl
  fresh _ := ⟨rfl, fun z hz => by simp at hz⟩
  started h := absurd rfl h
  placed z hz := by simp at hz
  ones z hz := by simp at hz

/-- The tracker exists once a call has begun. -/
theorem Placing.earlyStart {done : List ZoneIdx} (h : Placing s₁ done top s) :
    s.earlyStart.earlyBitmap = 0x100000 ∧ Tracked s.earlyStart.mem top := by
  rcases Nat.eq_zero_or_pos top with rfl | hpos
  · rw [Phys.earlyStart, if_pos (h.fresh rfl).1]
    exact ⟨rfl, fun k hk => by omega, fun k _ hk => ByteMem.bit_fill_zero (by omega)⟩
  · obtain ⟨heb, -, htr⟩ := h.started (by omega)
    rw [Phys.earlyStart, if_neg (by omega)]
    exact ⟨heb, htr⟩

/-- What one call of the early allocator does: it takes the pages at the
end of the run. -/
theorem Placing.early_cases {done : List ZoneIdx} {ptr : ℕ} (h : Placing s₁ done top s)
    (hp : 0 < pages) (ha : pmmEarlyAlloc s pages = some (s', ptr)) :
    ptr = 4096 * (0x100 + top) ∧ s'.zones = s.zones ∧ s'.earlyBitmap = 0x100000 ∧
      s'.totalSystemPages = s.totalSystemPages ∧
      ∀ k, s'.mem.bit k = (decide (8 * 0x100000 + top ≤ k ∧ k < 8 * 0x100000 + top + pages) ||
        s.earlyStart.mem.bit k) := by
  obtain ⟨heb, htr⟩ := h.earlyStart
  have hzones : s.earlyStart.zones = s.zones := by unfold Phys.earlyStart; split <;> rfl
  have hsys : s.earlyStart.totalSystemPages = s.totalSystemPages := by
    unfold Phys.earlyStart; split <;> rfl
  simp only [pmmEarlyAlloc, heb] at ha
  split at ha
  · cases ha
  · rename_i i hi
    obtain rfl := htr.search hp hi
    simp only [Option.some.injEq, Prod.mk.injEq] at ha
    obtain ⟨rfl, rfl⟩ := ha
    refine ⟨by simp only [pageSize]; omega, hzones, rfl, hsys, fun k => ?_⟩
    exact bit_earlyMark ..

/-- A populated zone needs a bitmap of at least one word. -/
theorem eight_le_bitmapBytes (h : s₁.bitmapBytes z ≠ 0) : 8 ≤ s₁.bitmapBytes z := by
  unfold State.bitmapBytes bitmapSize at h ⊢
  split at h
  · exact absurd rfl h
  · rename_i ht
    rw [if_neg ht]
    omega

/-- **One zone of the bitmap phase.** An unpopulated zone is passed over;
a populated one gets the pages at the end of the tracker's run, and the
bits of its bitmap are set. No bit that was set is cleared. -/
theorem Placing.place_cases {done : List ZoneIdx} (h : Placing s₁ done top s)
    (hspan : (s₁.zones z).totalPages ≠ 0 → 0 < (s₁.zones z).span)
    (hs : placeBitmap s z = some s') :
    (s₁.bitmapBytes z = 0 ∧ s' = s) ∨
    (s₁.bitmapBytes z ≠ 0 ∧
      s'.zones = Function.update s.zones z { s.zones z with bitmap := 4096 * (0x100 + top) } ∧
      s'.earlyBitmap = 0x100000 ∧ s'.totalSystemPages = s.totalSystemPages ∧
      ∀ k, s'.mem.bit k = true ↔
        (8 * (4096 * (0x100 + top)) ≤ k ∧
          k < 8 * (4096 * (0x100 + top) + s₁.bitmapBytes z)) ∨
        (8 * 0x100000 + top ≤ k ∧ k < 8 * 0x100000 + top + bitmapPages (s₁.bitmapBytes z)) ∨
        s.earlyStart.mem.bit k = true) := by
  have htot := (h.like z).total
  by_cases ht : (s₁.zones z).totalPages = 0
  · simp only [placeBitmap, htot, if_pos ht, Option.some.injEq] at hs
    exact Or.inl ⟨if_pos ht, hs.symm⟩
  · have hb : s₁.bitmapBytes z = bitmapSize (s₁.zones z).span := if_neg ht
    have hne : s₁.bitmapBytes z ≠ 0 := by
      have := hspan ht
      have := span_le_bitmapSize (s₁.zones z).span
      omega
    have hpages := bitmapPages_pos (n := s₁.bitmapBytes z) (by omega)
    simp only [placeBitmap, if_neg (htot ▸ ht), (h.like z).span, ← hb] at hs
    split at hs
    · cases hs
    · rename_i out s₂ ptr ha
      obtain ⟨rfl, hzones, heb, hsys, hbit⟩ := h.early_cases hpages ha
      simp only [Option.some.injEq] at hs
      subst hs
      refine Or.inr ⟨hne, by rw [← hzones]; rfl, heb, hsys, fun k => ?_⟩
      rw [ByteMem.bit_fill_ones, hbit, Bool.or_eq_true, Bool.or_eq_true, decide_eq_true_eq,
        decide_eq_true_eq]

/-- The tracker after a zone: the run has grown to `nextTop`. The first
bitmap lies over the tracker, the later ones past it. -/
theorem Tracked.grow {mem' : ByteMem} (h : Tracked mem top) (hn : 8 ≤ n)
    (htop : top = 0 ∨ 64 ≤ top)
    (hbit : ∀ k, mem'.bit k = true ↔
      (8 * (4096 * (0x100 + top)) ≤ k ∧ k < 8 * (4096 * (0x100 + top) + n)) ∨
      (8 * 0x100000 + top ≤ k ∧ k < 8 * 0x100000 + top + bitmapPages n) ∨ mem.bit k = true) :
    Tracked mem' (nextTop top n) := by
  have hle := bitmapPages_le n
  have hnext : nextTop top n = if top = 0 then 8 * n else top + bitmapPages n :=
    if_neg (by omega)
  refine ⟨fun k hk => ?_, fun k hk1 hk2 => ?_⟩
  · rw [hbit]
    rcases Nat.lt_or_ge k top with hkt | hkt
    · exact Or.inr (Or.inr (h.used k hkt))
    · rw [hnext] at hk
      split at hk
      · exact Or.inl (by omega)
      · exact Or.inr (Or.inl (by omega))
  · have hge : top ≤ k := (le_nextTop top n).trans hk1
    rw [← Bool.not_eq_true, hbit, not_or, not_or, h.unused k hge hk2]
    rw [hnext] at hk1
    refine ⟨?_, ?_, Bool.false_ne_true⟩
    · rcases htop with rfl | htop
      · rw [if_pos rfl] at hk1; omega
      · omega
    · split at hk1 <;> omega

/-- A zone that needs no bitmap is passed over. -/
theorem Placing.skip {done : List ZoneIdx} (h : Placing s₁ done top s)
    (hb : s₁.bitmapBytes z = 0) : Placing s₁ (done ++ [z]) top s := by
  have hmem : ∀ w ∈ done ++ [z], s₁.bitmapBytes w ≠ 0 → w ∈ done := by
    intro w hw hne
    rw [List.mem_append, List.mem_singleton] at hw
    rcases hw with hw | rfl
    · exact hw
    · exact absurd hb hne
  refine ⟨h.like, h.system, fun w hw => h.null w fun hd => hw (List.mem_append_left _ hd),
    fun h0 => ⟨(h.fresh h0).1, fun w hw => ?_⟩, h.started,
    fun w hw hne => h.placed w (hmem w hw hne) hne,
    fun w hw hne => h.ones w (hmem w hw hne) hne⟩
  by_contra hne
  exact hne ((h.fresh h0).2 w (hmem w hw hne))

theorem Placing.step {done : List ZoneIdx} (h : Placing s₁ done top s) (hnew : z ∉ done)
    (hspan : (s₁.zones z).totalPages ≠ 0 → 0 < (s₁.zones z).span)
    (hpos : bitmapPos s₁.bitmapBytes z = top) (hs : placeBitmap s z = some s') :
    Placing s₁ (done ++ [z]) (nextTop top (s₁.bitmapBytes z)) s' := by
  rcases h.place_cases hspan hs with ⟨hb, rfl⟩ | ⟨hne, hzones, heb, hsys, hbit⟩
  · rw [hb, nextTop, if_pos rfl]
    exact h.skip hb
  · have h8 := eight_le_bitmapBytes hne
    have hgrow := add_pages_le_nextTop top hne
    have hpages := bitmapPages_pos (n := s₁.bitmapBytes z) (by omega)
    have htop : top = 0 ∨ 64 ≤ top := by
      rcases Nat.eq_zero_or_pos top with h0 | h0
      · exact Or.inl h0
      · exact Or.inr (h.started (by omega)).2.1
    have hzone : ∀ w, w ≠ z → s'.zones w = s.zones w := fun w hw => by
      rw [hzones, Function.update_of_ne hw]
    have hself : s'.zones z = { s.zones z with bitmap := 4096 * (0x100 + top) } := by
      rw [hzones, Function.update_self]
    have hold : ∀ w ∈ done ++ [z], w ≠ z → w ∈ done := by
      intro w hw hwz
      rw [List.mem_append, List.mem_singleton] at hw
      exact hw.resolve_right hwz
    refine ⟨fun w => ?_, hsys.trans h.system, fun w hw => ?_, fun h0 => by omega,
      fun _ => ⟨heb, ?_, ?_⟩, fun w hw hwne => ?_, fun w hw hwne k hk => ?_⟩
    · by_cases hw : w = z
      · subst hw
        rw [hself]
        exact ⟨(h.like w).base, (h.like w).stop, (h.like w).total, (h.like w).free⟩
      · rw [hzone w hw]
        exact h.like w
    · -- a zone without a bitmap is not the one that got it
      have hwz : w ≠ z := by
        rintro rfl
        exact hne (hw (by simp))
      rw [hzone w hwz]
      exact h.null w fun hd => hw (List.mem_append_left _ hd)
    · rw [nextTop, if_neg hne]
      split <;> omega
    · exact h.earlyStart.2.grow h8 htop hbit
    · by_cases hwz : w = z
      · subst hwz
        rw [hself, hpos]
      · rw [hzone w hwz]
        exact h.placed w (hold w hw hwz) hwne
    · rw [hbit]
      by_cases hwz : w = z
      · subst hwz
        rw [hself]
        exact Or.inl (by simp only; omega)
      · -- a bitmap placed before: the tracker existed, so nothing was cleared
        have h0 : top ≠ 0 := fun h0 => hwne ((h.fresh h0).2 w (hold w hw hwz))
        have hmem : s.earlyStart = s := by
          rw [Phys.earlyStart, if_neg (by rw [(h.started h0).1]; decide)]
        rw [hmem, hzone w hwz]
        exact Or.inr (Or.inr (h.ones w (hold w hw hwz) hwne k hk))

/-- **The bitmap phase, whole.** Where it does not panic, every populated
zone has its bitmap at `bitmapPos`, with every bit set. -/
theorem placeBitmaps_spec {mem : ByteMem} (hspan : ∀ z, (s₁.zones z).totalPages ≠ 0 →
    0 < (s₁.zones z).span) (hs : placeBitmaps freeOrder (Phys.ofMap mem s₁) = some s) :
    ∃ top, Placing s₁ freeOrder top s := by
  simp only [freeOrder, placeBitmaps] at hs
  split at hs
  · cases hs
  rename_i a ha
  split at hs
  · cases hs
  rename_i b hb
  split at hs
  · cases hs
  rename_i c hc
  cases hs
  have h1 := (placing_start mem s₁).step (by simp) (hspan _) rfl ha
  have h2 := h1.step (by simp) (hspan _) rfl hb
  exact ⟨_, h2.step (by simp) (hspan _) rfl hc⟩

end Pmm

end Kos
