import Kos.Pci.Ranges
/-!
# Pci — what the scan records of the ranges

The loop writes ones and reads the size off what comes back. It takes the
size of a pair of registers from the lower half, and treats the low four
bits of a port address as it does those of a memory address.
-/

namespace Kos

namespace Pci

variable {c : Space} {fn : Fn} {d : Device} {i : ℕ}

/-! ## The loop -/

/-- What comes back of the ones. -/
def sizeRead (c : Space) (fn : Fn) (i : ℕ) : UInt32 :=
  c.rule (configAddr fn (barOffset i)) (pciRead c fn (barOffset i)) 0xFFFFFFFF

/-- What the body leaves alone. -/
abbrev Skipped (c : Space) (fn : Fn) (i : ℕ) : Prop :=
  sizeRead c fn i = 0 ∨ sizeRead c fn i = 0xFFFFFFFF

/-- What the body puts into entry `i` of the four arrays. -/
def readBar (c : Space) (fn : Fn) (i : ℕ) : UInt32 × UInt64 × UInt64 × Bool :=
  let old := pciRead c fn (barOffset i)
  let size := barSizeOf (sizeRead c fn i)
  if Skipped c fn i then (0, 0, 0, false)
  else if old &&& 0x04 ≠ 0 then
    (old, ((pciRead c fn (barOffset (i + 1))).toUInt64 <<< 32) ||| (old &&& 0xFFFFFFF0).toUInt64,
      size, old &&& 1 == 0)
  else (old, (old &&& 0xFFFFFFF0).toUInt64, size, old &&& 1 == 0)

/-- The index the loop goes on from. -/
def nextBar (c : Space) (fn : Fn) (i : ℕ) : ℕ :=
  if ¬ Skipped c fn i ∧ pciRead c fn (barOffset i) &&& 0x04 ≠ 0 then i + 2 else i + 1

/-- Entry `i` of the four arrays. -/
def Device.at (d : Device) (i : ℕ) : UInt32 × UInt64 × UInt64 × Bool :=
  (d.bar i, d.barPhys i, d.barSize i, d.barIsMmio i)

def Device.put (c : Space) (fn : Fn) (d : Device) (i : ℕ) : Device :=
  let e := readBar c fn i
  d.setBar i e.1 e.2.1 e.2.2.1 e.2.2.2

theorem Device.at_put (j : ℕ) : (d.put c fn i).at j = if j = i then readBar c fn i else d.at j := by
  unfold Device.put Device.setBar Device.at
  by_cases hj : j = i
  · simp [hj]
  · simp [hj, Function.update_of_ne]

/-- **The body**, where the registers take back what they held. -/
theorem Restores.probeBar (h : Restores c fn) (hi : i < 6) (d : Device) :
    probeBar fn i c d = (c, d.put c fn i, nextBar c fn i) := by
  have hback : Pci.sizedUp fn i c = c := h.sizedUp hi
  have hsz : pciRead (pciWrite c fn (barOffset i) 0xFFFFFFFF) fn (barOffset i) = sizeRead c fn i :=
    pciRead_pciWrite_self ..
  unfold Pci.sizedUp at hback
  unfold Pci.probeBar Device.put readBar nextBar
  dsimp only
  rw [hback, hsz]
  by_cases hskip : Skipped c fn i
  · simp only [if_pos hskip, if_neg fun hn => absurd hskip (And.left hn)]
  · by_cases hpair : pciRead c fn (barOffset i) &&& 0x04 ≠ 0
    · simp only [if_neg hskip, if_pos hpair, if_pos (And.intro hskip hpair)]
    · simp only [if_neg hskip, if_neg hpair, if_neg fun hn => hpair (And.right hn)]

/-- The indices the loop runs through. -/
def visited (c : Space) (fn : Fn) : ℕ → ℕ → List ℕ
  | 0, _ => []
  | n + 1, i => if i < 6 then i :: visited c fn n (nextBar c fn i) else []

theorem Restores.probeBars_eq (h : Restores c fn) (n i : ℕ) (d : Device) :
    Pci.probeBars fn n i c d = (c, (visited c fn n i).foldl (Device.put c fn) d) := by
  induction n generalizing i d with
  | zero => rfl
  | succ n ih =>
    rw [Pci.probeBars, visited]
    split
    · next hi =>
      rw [h.probeBar hi]
      exact ih ..
    · rfl

theorem sized_foldl_put (l : List ℕ) (d : Device) :
    (l.foldl (Device.put c fn) d).sized = d.sized ++ l := by
  induction l generalizing d with
  | nil => simp
  | cons j l ih => simp [ih, Device.put, Device.setBar]

/-- What has been recorded does not depend on when. -/
theorem at_foldl_put {l : List ℕ} {j : ℕ} (hj : j ∈ l) (d : Device) :
    (l.foldl (Device.put c fn) d).at j = readBar c fn j := by
  induction l using List.reverseRecOn with
  | nil => cases hj
  | append_singleton l a ih =>
    rw [List.foldl_concat, Device.at_put]
    split
    · next h => rw [h]
    · next h => exact ih ((List.mem_append.1 hj).resolve_right fun hm => h (List.mem_singleton.1 hm))

/-! ## What the loop makes of a range -/

/-- **The mask of the loop rounds down to sixteen.** -/
theorem toNat_land_mask (x : UInt32) : (x &&& 0xFFFFFFF0).toNat = 16 * (x.toNat / 16) := by
  have hmask : (4294967280 : UInt32).toNat = 2 ^ 32 - 2 ^ 4 := rfl
  rw [UInt32.toNat_and, hmask]
  exact land_two_pow_sub_two_pow x.toNat_lt (by decide)

/-- What is recorded as the size, where ones read back as `sz`. -/
theorem toNat_barSizeOf (sz : UInt32) :
    (barSizeOf sz).toNat = (2 ^ 32 - 16 * (sz.toNat / 16)) % 2 ^ 32 := by
  have hlt := sz.toNat_lt
  unfold barSizeOf
  rw [UInt32.toNat_toUInt64, UInt32.toNat_add, UInt32.toNat_not, toNat_land_mask]
  have hone : UInt32.toNat 1 = 1 := rfl
  rw [hone]
  congr 1
  have hsize : UInt32.size = 2 ^ 32 := rfl
  omega

theorem land_four_ne_zero_iff (x : UInt32) : x &&& 0x04 ≠ 0 ↔ x.toNat / 4 % 2 = 1 := by
  rw [ne_eq, ← UInt32.toNat_inj, UInt32.toNat_and]
  exact land_two_pow_ne_zero_iff x.toNat 2

theorem land_one_beq_zero_iff (x : UInt32) : (x &&& 1 == 0) = true ↔ x.toNat % 2 = 0 := by
  rw [beq_iff_eq, ← UInt32.toNat_inj, UInt32.toNat_and]
  exact Eq.congr_left (Nat.and_one_is_mod _)

/-- The size a register gives away. -/
theorem Register.At.sizeRead {r : Register} (h : r.At c fn i) :
    (sizeRead c fn i).toNat = 2 ^ r.width - 2 ^ r.fixed + r.type := by
  unfold Pci.sizeRead
  rw [h.2]
  exact r.keep_ones

/-- **What the loop gets right**: port ranges with a full address and of
sixteen ports or more, memory of 32 bits, and pairs for less than 4 GiB. -/
def Bar.Recognised (b : Bar) : Prop :=
  match b.kind with
  | .io wide => wide = true ∧ 4 ≤ b.k
  | .mem32 _ => True
  | .mem64 _ => b.k < 32

/-- The entry is that of this range, or that of an unused register. -/
def Decodes (e : UInt32 × UInt64 × UInt64 × Bool) : Option Bar → Prop
  | none => e.2 = (0, 0, false)
  | some b => e.2.1.toNat = b.base ∧ e.2.2.1.toNat = 2 ^ b.k ∧ e.2.2.2 = b.kind.isMem

namespace Bar

variable {b : Bar}

/-- What comes back of the ones, as a number. -/
theorem sizeRead (h : b.lo.At c fn i) :
    (sizeRead c fn i).toNat = 2 ^ b.kind.loWidth - 2 ^ b.k + b.kind.type := h.sizeRead

/-- The sizes there are. -/
theorem size_bounds (b : Bar) :
    2 ^ b.kind.least ≤ 2 ^ b.k ∧ 2 ^ b.k * 2 ≤ 2 ^ b.kind.width := by
  rw [← Nat.pow_succ]
  exact ⟨Nat.pow_le_pow_right (by decide) b.hleast, Nat.pow_le_pow_right (by decide) b.hwidth⟩

theorem not_skipped (h : b.lo.At c fn i) : ¬ Skipped c fn i := by
  have hsz := b.sizeRead h
  obtain ⟨hlow, hhigh⟩ := b.size_bounds
  have hzero : UInt32.toNat 0 = 0 := rfl
  have hones : (4294967295 : UInt32).toNat = 2 ^ 32 - 1 := rfl
  unfold Skipped
  rw [← UInt32.toNat_inj, ← UInt32.toNat_inj, hsz, hzero, hones]
  generalize 2 ^ b.k = size, b.kind = kind at hlow hhigh ⊢
  rcases kind with ⟨_ | _⟩ | ⟨_ | _⟩ | ⟨_ | _⟩ <;>
    simp [Kind.least, Kind.width, Kind.loWidth, Kind.type] at hlow hhigh ⊢ <;> omega

/-- Sizes are multiples of sixteen, but for the two least. -/
theorem size_cases (b : Bar) : 16 ∣ 2 ^ b.k ∨ 2 ^ b.k = 4 ∨ 2 ^ b.k = 8 := by
  rcases Nat.lt_or_ge b.k 4 with hlt | hge
  · have hleast : 2 ≤ b.k := by
      refine Nat.le_trans ?_ b.hleast
      rcases b.kind with _ | _ | _ <;> simp [Kind.least]
    right
    interval_cases b.k
    · exact Or.inl rfl
    · exact Or.inr rfl
  · exact Or.inl (Nat.pow_dvd_pow 2 hge)

theorem recognised_iff (b : Bar) : b.Recognised ↔
    match b.kind with
    | .io wide => wide = true ∧ 2 ^ 4 ≤ 2 ^ b.k
    | .mem32 _ => True
    | .mem64 _ => 2 ^ b.k < 2 ^ 32 := by
  have hio : 4 ≤ b.k ↔ 2 ^ 4 ≤ 2 ^ b.k := (Nat.pow_le_pow_iff_right (by decide)).symm
  have hmem : b.k < 32 ↔ 2 ^ b.k < 2 ^ 32 := (Nat.pow_lt_pow_iff_right (by decide)).symm
  unfold Recognised
  rw [hio, hmem]

/-- **The size that is recorded is right exactly for these.** -/
theorem size_eq_iff (h : b.lo.At c fn i) :
    (readBar c fn i).2.2.1.toNat = 2 ^ b.k ↔ b.Recognised := by
  have hsize : (readBar c fn i).2.2.1 = barSizeOf (Pci.sizeRead c fn i) := by
    unfold readBar
    rw [if_neg (b.not_skipped h)]
    split_ifs <;> rfl
  obtain ⟨hlow, hhigh⟩ := b.size_bounds
  have hcases := b.size_cases
  rw [hsize, toNat_barSizeOf, b.sizeRead h, b.recognised_iff]
  generalize 2 ^ b.k = size, b.kind = kind at hlow hhigh hcases ⊢
  rcases kind with ⟨_ | _⟩ | ⟨_ | _⟩ | ⟨_ | _⟩ <;>
    simp [Kind.least, Kind.width, Kind.loWidth, Kind.type] at hlow hhigh ⊢ <;> omega

/-- The mask takes off the type bits and no others. -/
theorem land_mask (hr : b.Recognised) (h : b.lo.At c fn i) :
    (pciRead c fn (barOffset i) &&& 0xFFFFFFF0).toNat = b.base % 2 ^ 32 := by
  have hold : (pciRead c fn (barOffset i)).toNat = b.base % 2 ^ 32 + b.kind.type := h.1
  have htype : b.kind.type < 16 := by
    rcases b.kind with ⟨_ | _⟩ | ⟨_ | _⟩ | ⟨_ | _⟩ <;> decide
  have hk : 4 ≤ b.k := by
    have hleast := b.hleast
    unfold Recognised at hr
    split at hr
    · exact hr.2
    · next hkind => rwa [hkind] at hleast
    · next hkind => rwa [hkind] at hleast
  obtain ⟨n, hn⟩ : 2 ^ 4 ∣ b.base % 2 ^ 32 := (Nat.pow_dvd_pow 2 hk).trans b.low_aligned
  rw [toNat_land_mask, hold]
  omega

/-- The type bits are read as what they are. -/
theorem type_bits (hr : b.Recognised) (h : b.lo.At c fn i) :
    (pciRead c fn (barOffset i) &&& 0x04 ≠ 0 ↔ ∃ prefetch, b.kind = .mem64 prefetch) ∧
      (pciRead c fn (barOffset i) &&& 1 == 0) = b.kind.isMem := by
  have hold : (pciRead c fn (barOffset i)).toNat = b.base % 2 ^ 32 + b.kind.type := h.1
  have hmask := b.land_mask hr h
  rw [toNat_land_mask, hold] at hmask
  rw [land_four_ne_zero_iff, Bool.eq_iff_iff, land_one_beq_zero_iff, hold]
  clear hold
  generalize b.base % 2 ^ 32 = low, b.kind = kind at hmask ⊢
  rcases kind with ⟨_ | _⟩ | ⟨_ | _⟩ | ⟨_ | _⟩ <;>
    simp [Kind.type, Kind.isMem] at hmask ⊢ <;> omega

/-- An address of one register is all in the lower half. -/
theorem base_mod (hone : b.kind.width ≤ 32) : b.base % 2 ^ 32 = b.base :=
  Nat.mod_eq_of_lt (b.hbase.trans_le (Nat.pow_le_pow_right (by decide) hone))

theorem decodes_one (hr : b.Recognised) (h : b.lo.At c fn i)
    (hkind : ∀ prefetch, b.kind ≠ .mem64 prefetch) (hone : b.kind.width ≤ 32) :
    Decodes (readBar c fn i) (some b) ∧ nextBar c fn i = i + 1 := by
  obtain ⟨hpair, hmem⟩ := b.type_bits hr h
  have hsize := (b.size_eq_iff h).2 hr
  have hlow := b.land_mask hr h
  have hsingle : ¬ pciRead c fn (barOffset i) &&& 0x04 ≠ 0 := by
    rw [hpair]
    rintro ⟨prefetch, hp⟩
    exact hkind prefetch hp
  unfold readBar nextBar at *
  rw [if_neg (b.not_skipped h), if_neg hsingle] at hsize ⊢
  rw [if_neg fun hn => hsingle hn.2]
  refine ⟨⟨?_, hsize, hmem⟩, rfl⟩
  rw [UInt32.toNat_toUInt64, hlow, b.base_mod hone]

theorem decodes_pair (hr : b.Recognised) (h : b.lo.At c fn i) (hhi : b.hi.At c fn (i + 1))
    {prefetch : Bool} (hkind : b.kind = .mem64 prefetch) :
    Decodes (readBar c fn i) (some b) ∧ nextBar c fn i = i + 2 := by
  obtain ⟨hpair, hmem⟩ := b.type_bits hr h
  have hsize := (b.size_eq_iff h).2 hr
  have hlow := b.land_mask hr h
  have hupper : (pciRead c fn (barOffset (i + 1))).toNat = b.base / 2 ^ 32 := hhi.1
  have hlt := (pciRead c fn (barOffset (i + 1))).toNat_lt
  have hfour := hpair.2 ⟨prefetch, hkind⟩
  have h32 : UInt64.toNat 32 % 64 = 32 := rfl
  unfold readBar nextBar at *
  rw [if_neg (b.not_skipped h), if_pos hfour] at hsize ⊢
  rw [if_pos ⟨b.not_skipped h, hfour⟩]
  refine ⟨⟨?_, hsize, hmem⟩, rfl⟩
  dsimp only
  rw [UInt64.toNat_or, UInt64.toNat_shiftLeft, UInt32.toNat_toUInt64, UInt32.toNat_toUInt64, hlow,
    h32, Nat.shiftLeft_eq, Nat.mod_eq_of_lt (by omega), Nat.mul_comm,
    two_pow_mul_lor (Nat.mod_lt _ (by decide)), hupper, Nat.div_add_mod]

/-- **What the loop makes of such a range.** -/
theorem decodes (hr : b.Recognised) (h : Holds c fn i (registers (some b))) :
    Decodes (readBar c fn i) (some b) ∧ nextBar c fn i = i + (registers (some b)).length := by
  unfold registers at h ⊢
  dsimp only at h ⊢
  split at h
  · next prefetch hkind => exact decodes_pair hr h.1 h.2.1 hkind
  · next hkind => exact decodes_one hr h.1 hkind (by
      rcases hb : b.kind with ⟨_ | _⟩ | _ | prefetch
      · decide
      · decide
      · exact le_refl 32
      · exact absurd hb (hkind prefetch))

end Bar

theorem decodes_unused (h : Register.unused.At c fn i) :
    Decodes (readBar c fn i) none ∧ nextBar c fn i = i + 1 := by
  have hskip : Skipped c fn i := by
    refine Or.inl (UInt32.toNat_inj.1 ?_)
    rw [h.sizeRead]
    rfl
  unfold readBar nextBar
  rw [if_pos hskip, if_neg fun hn => hn.1 hskip]
  exact ⟨rfl, rfl⟩

/-! ## The six registers -/

variable {bars : List (Option Bar)}

theorem registers_pos (b : Option Bar) : 0 < (registers b).length := by
  rcases b with _ | b
  · exact Nat.one_pos
  · unfold registers
    dsimp only
    split <;> exact Nat.succ_pos _

/-- **The loop runs through the ranges** if it gets all of them right, and
skips the upper half of each pair. -/
theorem visited_eq {n : ℕ} (hrec : ∀ b, some b ∈ bars → b.Recognised)
    (h : Holds c fn i (bars.flatMap registers)) (hlen : i + (bars.flatMap registers).length = 6)
    (hn : 6 ≤ i + n) : visited c fn n i = (starts i bars).map Prod.fst := by
  induction bars generalizing i n with
  | nil =>
    have hi : ¬ i < 6 := by
      rw [List.flatMap_nil, List.length_nil] at hlen
      omega
    cases n with
    | zero => rfl
    | succ n => rw [visited, if_neg hi, starts, List.map_nil]
  | cons b bars ih =>
    rw [List.flatMap_cons, holds_append] at h
    rw [List.flatMap_cons, List.length_append] at hlen
    have hpos := registers_pos b
    obtain ⟨n, rfl⟩ := Nat.exists_eq_add_of_lt (by omega : 0 < n)
    have hnext : nextBar c fn i = i + (registers b).length := by
      cases b with
      | none => exact (decodes_unused h.1.1).2
      | some b => exact (b.decodes (hrec b List.mem_cons_self) h.1).2
    rw [Nat.zero_add, visited, if_pos (by omega), hnext, starts, List.map_cons]
    rw [ih (fun b hb => hrec b (List.mem_cons_of_mem _ hb)) h.2 (by omega) (by omega)]

/-- The registers of a range are where it starts. -/
theorem holds_of_mem_starts {j : ℕ} {b : Option Bar} (h : Holds c fn i (bars.flatMap registers))
    (hb : (j, b) ∈ starts i bars) : b ∈ bars ∧ Holds c fn j (registers b) := by
  induction bars generalizing i with
  | nil => cases hb
  | cons a bars ih =>
    rw [List.flatMap_cons, holds_append] at h
    rw [starts, List.mem_cons] at hb
    rcases hb with hb | hb
    · obtain ⟨rfl, rfl⟩ := Prod.mk.inj hb
      exact ⟨List.mem_cons_self, h.1⟩
    · obtain ⟨hmem, hholds⟩ := ih h.2 hb
      exact ⟨List.mem_cons_of_mem a hmem, hholds⟩

theorem exists_start {b : Option Bar} (hb : b ∈ bars) (i : ℕ) : ∃ j, (j, b) ∈ starts i bars := by
  induction bars generalizing i with
  | nil => cases hb
  | cons a bars ih =>
    rcases List.mem_cons.1 hb with rfl | hb
    · exact ⟨i, List.mem_cons_self⟩
    · obtain ⟨j, hj⟩ := ih hb (i + (registers a).length)
      exact ⟨j, List.mem_cons_of_mem _ hj⟩

/-- **The entry has each range**: its base, size and kind at its index, and
the loop has been through these indices and no others. -/
structure RecordsBars (d : Device) (bars : List (Option Bar)) : Prop where
  sized : d.sized = (starts 0 bars).map Prod.fst
  entries : ∀ j b, (j, b) ∈ starts 0 bars → Decodes (d.at j) b

/-- What the loop leaves in an entry. -/
theorem entry_bars {fuel : ℕ} (h : entry fuel c fn = some d) (hc : Restores c fn) :
    d.sized = visited c fn 6 0 ∧ ∀ j ∈ d.sized, d.at j = readBar c fn j := by
  obtain ⟨p, hp, rfl⟩ := Option.map_eq_some_iff.1 h
  obtain ⟨-, capable, offset, hd⟩ := initFunction_some hp
  unfold probeFunction at hd
  dsimp only at hd
  rw [hc.probeBars_eq] at hd
  have hsized : p.2.sized = visited c fn 6 0 := by
    rw [hd]
    exact sized_foldl_put ..
  refine ⟨hsized, fun j hj => ?_⟩
  rw [hsized] at hj
  rw [hd]
  exact at_foldl_put hj _

/-- **An entry has its ranges exactly if the loop gets all of them right.** -/
theorem recordsBars_iff {fuel : ℕ} (h : entry fuel c fn = some d) (hbars : Laid c fn bars) :
    RecordsBars d bars ↔ ∀ b, some b ∈ bars → b.Recognised := by
  obtain ⟨hsized, hentries⟩ := entry_bars h hbars.restores
  constructor
  · intro hrec b hb
    obtain ⟨j, hj⟩ := exists_start hb 0
    have hmem : j ∈ d.sized := by
      rw [hrec.sized]
      exact List.mem_map_of_mem hj
    -- the size alone tells whether the loop gets the range right
    have hsize := (hrec.entries j _ hj).2.1
    rw [hentries j hmem] at hsize
    have hholds := (holds_of_mem_starts hbars.2 hj).2
    refine (b.size_eq_iff ?_).1 hsize
    unfold registers at hholds
    dsimp only at hholds
    split at hholds
    · exact hholds.1
    · exact hholds.1
  · intro hrec
    have hstarts := visited_eq hrec hbars.2 ((Nat.zero_add _).trans hbars.1)
      (by decide : 6 ≤ 0 + 6)
    rw [hstarts] at hsized
    refine ⟨hsized, fun j b hj => ?_⟩
    obtain ⟨hb, hholds⟩ := holds_of_mem_starts hbars.2 hj
    rw [hentries j (by rw [hsized]; exact List.mem_map_of_mem hj)]
    cases b with
    | none => exact (decodes_unused hholds.1).1
    | some b => exact (b.decodes (hrec b hb) hholds).1

/-- **What `pci_init` records of the base address registers.** The function
gets an entry exactly if the scan comes to it and comes to an end. What
the entry records is what the registers decode exactly if `pci_init` gets
all of them right; it leaves the registers as they were in any case. -/
theorem pciInit_bars_iff (hbars : Laid c fn bars) :
    ((∃ fuel st, pciInit fuel c = some st ∧ ∃ d ∈ st.devices, d.fn = fn) ↔
        fn ∈ entered c ∧ ∀ f ∈ entered c, WalkEnds c f) ∧
      ∀ fuel st, pciInit fuel c = some st → ∀ d ∈ st.devices, d.fn = fn →
        ((RecordsBars d bars ∧
            ∀ i < 6, pciRead st.conf fn (barOffset i) = pciRead c fn (barOffset i)) ↔
          ∀ b, some b ∈ bars → b.Recognised) := by
  refine ⟨pciInit_enters_iff, ?_⟩
  rintro fuel st hst d hd rfl
  obtain ⟨fn, hfn, hentry⟩ := (mem_devices hst).1 hd
  obtain ⟨rfl, -⟩ := entry_some hentry
  have hsame : ∀ o, pciRead st.conf d.fn o = pciRead c d.fn o := by
    intro o
    rw [((pciInit_some hst).2 _ hfn).2, hbars.restores.probed]
  rw [recordsBars_iff hentry hbars]
  exact and_iff_left fun i _ => hsame _

/-! ## A function with given ranges -/

/-- A network controller without capabilities. -/
def nic (o : UInt8) : UInt32 := if o = 0x00 then 0x100E8086 else if o = 0x08 then 0x02000003 else 0

/-- A controller with these registers for addresses, alone on the bus. -/
def ranged (rs : List Register) : Space :=
  alone
    (fun o =>
      if 0x10 ≤ o ∧ o < 0x28 then UInt32.ofNat (rs.getD ((o.toNat - 0x10) / 4) .unused).value
      else nic o)
    fun addr _ w =>
      UInt32.ofNat ((rs.getD ((addr.toUInt8.toNat - 0x10) / 4) .unused).keep w.toNat)

theorem entered_ranged (rs : List Register) : entered (ranged rs) = [.first] := by
  have hid : ¬ ((0x10 : UInt8) ≤ 0 ∧ (0 : UInt8) < 0x28) := by decide
  refine entered_alone ?_
  rw [if_neg hid]
  rfl

theorem at_ranged {rs : List Register} {j : ℕ} (hj : j < 6) :
    (rs.getD j .unused).At (ranged rs) .first j := by
  have hoff := barOffset_toNat hj
  have hindex : ((barOffset j &&& 0xFC).toNat - 0x10) / 4 = j := by omega
  have hrange : 0x10 ≤ barOffset j &&& 0xFC ∧ barOffset j &&& 0xFC < 0x28 := by
    rw [UInt8.le_iff_toNat_le, UInt8.lt_iff_toNat_lt, hoff]
    have h10 : UInt8.toNat 0x10 = 16 := rfl
    have h28 : UInt8.toNat 0x28 = 40 := rfl
    omega
  refine ⟨?_, fun old w => ?_⟩
  · unfold ranged
    rw [pciRead_alone, if_pos hrange, hindex]
    exact UInt32.toNat_ofNat_of_lt' (Register.value_lt _)
  · unfold ranged alone
    dsimp only
    rw [configAddr_toUInt8, hindex]
    exact UInt32.toNat_ofNat_of_lt' (Register.keep_lt _ _)

theorem holds_of_forall {rs : List Register}
    (h : ∀ j < rs.length, (rs.getD j .unused).At c fn (i + j)) : Holds c fn i rs := by
  induction rs generalizing i with
  | nil => trivial
  | cons r rs ih =>
    refine ⟨h 0 (Nat.succ_pos _), ih fun j hj => ?_⟩
    rw [Nat.add_assoc, Nat.add_comm 1 j]
    exact h (j + 1) (Nat.succ_lt_succ hj)

theorem laid_ranged (h : (bars.flatMap registers).length = 6) :
    Laid (ranged (bars.flatMap registers)) .first bars :=
  ⟨h, holds_of_forall fun j hj => by
    rw [Nat.zero_add]
    exact at_ranged (h ▸ hj)⟩

/-- A pair for 16 KiB, 32 ports and 128 KiB of memory. -/
def mixed : List (Option Bar) :=
  [some ⟨.mem64 true, 14, 0x400004000, by decide, by decide, by decide, by decide⟩,
    some ⟨.io true, 5, 0xC020, by decide, by decide, by decide, by decide⟩,
    some ⟨.mem32 false, 17, 0xFEBC0000, by decide, by decide, by decide, by decide⟩,
    none, none]

theorem mixed_recognised : ∀ b, some b ∈ mixed → b.Recognised := by
  intro b hb
  simp only [mixed, List.mem_cons, Option.some.injEq, List.not_mem_nil, or_false,
    reduceCtorEq] at hb
  rcases hb with rfl | rfl | rfl
  · exact (by decide : 14 < 32)
  · exact ⟨rfl, (by decide : 4 ≤ 5)⟩
  · trivial

/-- The entry is made, and it is right. -/
theorem pciInit_bars_iff_mixed :
    ∃ fuel st, pciInit fuel (ranged (mixed.flatMap registers)) = some st ∧
      ∃ d ∈ st.devices, d.fn = .first ∧ RecordsBars d mixed := by
  have hends : ∀ f ∈ entered (ranged (mixed.flatMap registers)),
      WalkEnds (ranged (mixed.flatMap registers)) f := by
    rw [entered_ranged]
    intro f hf
    rw [List.mem_singleton.1 hf]
    exact ⟨1, by decide⟩
  have hfirst : Fn.first ∈ entered (ranged (mixed.flatMap registers)) := by
    rw [entered_ranged]
    exact List.mem_singleton_self _
  have hlaid : Laid (ranged (mixed.flatMap registers)) .first mixed := laid_ranged rfl
  obtain ⟨hmade, hright⟩ := pciInit_bars_iff hlaid
  obtain ⟨fuel, st, hst, d, hd, hfn⟩ := hmade.2 ⟨hfirst, hends⟩
  exact ⟨fuel, st, hst, d, hd, hfn, ((hright fuel st hst d hd hfn).2 mixed_recognised).1⟩

/-- Eight ports. -/
def eightPorts : List (Option Bar) :=
  [some ⟨.io true, 3, 0xC040, by decide, by decide, by decide, by decide⟩,
    none, none, none, none, none]

/-- **Eight ports are not recorded as what they are.** -/
theorem pciInit_eightPorts :
    Laid (ranged (eightPorts.flatMap registers)) .first eightPorts ∧
      ∃ st, ∃ d ∈ st.devices, pciInit 1 (ranged (eightPorts.flatMap registers)) = some st ∧
        d.fn = .first ∧ ¬ RecordsBars d eightPorts := by
  have hends : (entry 1 (ranged (eightPorts.flatMap registers)) .first).isSome := by decide
  obtain ⟨d, hd⟩ := Option.isSome_iff_exists.1 hends
  obtain ⟨st, hst, hdev⟩ := pciInit_alone (by decide) hd
  have hmem : d ∈ st.devices := by rw [hdev]; exact List.mem_singleton_self d
  have hlaid : Laid (ranged (eightPorts.flatMap registers)) .first eightPorts := laid_ranged rfl
  refine ⟨hlaid, st, d, hmem, hst, (entry_some hd).1, fun hrec => ?_⟩
  have hports := (recordsBars_iff hd hlaid).1 hrec _ List.mem_cons_self
  exact absurd hports.2 (by decide : ¬ 4 ≤ 3)

end Pci

end Kos
