import Kos.Pmm.Locked
import Kos.Common.Run
import Mathlib.Algebra.BigOperators.Group.List.Basic
/-!
# Pmm — the state `pmm_init` builds

The two passes read the memory map as a list of frames, each with the
zone its entry goes to (`claimed`). The first pass makes every zone's
range cover the frames of its entries, the second clears exactly their
bits, and the reservation sets those of `ZONE_NORMAL` below 16 MB again.
On a map whose available entries are disjoint, no frame is claimed
twice, so the counters come out as the numbers of clear bits, and an
entry of a lower zone lies wholly below the entries of a higher one.
-/

namespace Kos

namespace Pmm

variable {s : State} {z w : ZoneIdx} {e e' : MmapEntry} {mmap : List MmapEntry}

/-! ## Entries as frame ranges -/

/-- The first frame of an entry, after clipping. -/
def MmapEntry.lo (e : MmapEntry) : ℕ := clipLow e.start / pageSize

/-- The frame one past an entry's last. -/
def MmapEntry.hi (e : MmapEntry) : ℕ := e.stop / pageSize

/-- The zone of an entry. -/
def MmapEntry.zone (e : MmapEntry) : ZoneIdx := zoneIdxOf e.stop

/-- A byte of the entry, as the map lists it. -/
def MmapEntry.Contains (e : MmapEntry) (a : ℕ) : Prop :=
  e.baseAddr.toNat ≤ a ∧ a < e.baseAddr.toNat + e.length.toNat

/-- The entries the first pass does not skip. -/
def MmapEntry.Contributes (e : MmapEntry) : Prop := e.available = true ∧ e.lo < e.hi

instance : Decidable e.Contributes := inferInstanceAs (Decidable (_ ∧ _))

theorem MmapEntry.start_eq (e : MmapEntry) :
    e.start = 4096 * ((e.baseAddr.toNat + 4095) % 2 ^ 64 / 4096) :=
  land_pageMask (add64_lt _ _)

theorem MmapEntry.stop_eq (e : MmapEntry) :
    e.stop = 4096 * ((e.baseAddr.toNat + e.length.toNat) % 2 ^ 64 / 4096) :=
  land_pageMask (add64_lt _ _)

theorem MmapEntry.clipLow_start (e : MmapEntry) : clipLow e.start = 4096 * e.lo := by
  have h := e.start_eq
  simp only [MmapEntry.lo, clipLow, pageSize]
  split <;> omega

theorem MmapEntry.stop_eq_hi (e : MmapEntry) : e.stop = 4096 * e.hi := by
  have h := e.stop_eq
  simp only [MmapEntry.hi, pageSize]
  omega

theorem MmapEntry.hi_lt (e : MmapEntry) : e.hi < 2 ^ 52 := by
  have h := e.stop_eq
  simp only [MmapEntry.hi, pageSize]
  omega

/-- The low megabyte is clipped away. -/
theorem MmapEntry.lo_ge (e : MmapEntry) : 0x100 ≤ e.lo := by
  simp only [MmapEntry.lo, clipLow, pageSize]
  split <;> omega

/-- The guards of the first pass say that the clipped range is not empty. -/
theorem MmapEntry.lo_lt_hi_iff (e : MmapEntry) :
    e.lo < e.hi ↔ ¬ e.start ≥ e.stop ∧ ¬ e.stop ≤ 0x100000 := by
  have h1 := e.start_eq
  have h2 := e.stop_eq
  simp only [MmapEntry.lo, MmapEntry.hi, clipLow, pageSize]
  split <;> omega

/-- **A frame of an entry lies in the entry**, where its end does not
wrap. -/
theorem MmapEntry.contains_of_frame {f : ℕ}
    (hfit : e.baseAddr.toNat + e.length.toNat ≤ 2 ^ 52) (h1 : e.lo ≤ f) (h2 : f < e.hi)
    {a : ℕ} (ha : pageSize * f ≤ a) (ha' : a < pageSize * f + pageSize) : e.Contains a := by
  have hs := e.start_eq
  have ht := e.stop_eq
  have hc := e.clipLow_start
  have hh := e.stop_eq_hi
  simp only [clipLow] at hc
  simp only [MmapEntry.Contains, pageSize] at *
  split at hc <;> omega

/-- No byte lies in both entries, if both are available. -/
def MmapEntry.Apart (e e' : MmapEntry) : Prop :=
  e.available = true → e'.available = true → ∀ a, e.Contains a → ¬ e'.Contains a

instance : Std.Symm MmapEntry.Apart where
  symm _ _ h hav hav' a ha ha' := h hav' hav a ha' ha

/-- **A memory map the firmware can report**: its available entries are
pairwise disjoint and lie below the physical address limit. -/
structure MapOk (mmap : List MmapEntry) : Prop where
  disjoint : mmap.Pairwise MmapEntry.Apart
  below : ∀ e ∈ mmap, e.available = true → e.baseAddr.toNat + e.length.toNat ≤ 2 ^ 52

/-- Apart entries share no frame. -/
theorem MmapEntry.Apart.no_frame (h : e.Apart e') {f : ℕ}
    (hav : e.available = true) (hav' : e'.available = true)
    (hfit : e.baseAddr.toNat + e.length.toNat ≤ 2 ^ 52)
    (hfit' : e'.baseAddr.toNat + e'.length.toNat ≤ 2 ^ 52)
    (h1 : e.lo ≤ f) (h2 : f < e.hi) (h1' : e'.lo ≤ f) (h2' : f < e'.hi) : False :=
  h hav hav' (pageSize * f)
    (MmapEntry.contains_of_frame hfit h1 h2 le_rfl (by simp [pageSize]))
    (MmapEntry.contains_of_frame hfit' h1' h2' le_rfl (by simp [pageSize]))

/-! ## The zones of entries are ordered -/

/-- The zones by address. -/
def ZoneIdx.rank : ZoneIdx → ℕ
  | .dma => 0
  | .dma32 => 1
  | .normal => 2

/-- The frame a zone's entries end at or below. -/
def ZoneIdx.cap : ZoneIdx → ℕ
  | .dma => 0x1000
  | .dma32 => 0x100000
  | .normal => 2 ^ 52

theorem MmapEntry.hi_le_cap (e : MmapEntry) : e.hi ≤ e.zone.cap := by
  have hs := e.stop_eq_hi
  have hlt := e.hi_lt
  unfold MmapEntry.zone zoneIdxOf
  split
  · simp only [ZoneIdx.cap]; omega
  · split <;> simp only [ZoneIdx.cap] <;> omega

/-- An entry of a higher zone ends above the lower zone's cap. -/
theorem MmapEntry.cap_lt_hi (h : w.rank < e.zone.rank) : w.cap < e.hi := by
  have hs := e.stop_eq_hi
  unfold MmapEntry.zone zoneIdxOf at h
  cases w <;> simp only [ZoneIdx.cap, ZoneIdx.rank] at h ⊢
  · by_cases h1 : e.stop ≤ 0x1000000
    · simp [h1] at h
    · omega
  · by_cases h1 : e.stop ≤ 0x1000000
    · simp [h1] at h
    · by_cases h2 : e.stop ≤ 0x100000000
      · simp [h1, h2] at h
      · omega
  · by_cases h1 : e.stop ≤ 0x1000000
    · simp [h1] at h
    · by_cases h2 : e.stop ≤ 0x100000000 <;> simp [h1, h2] at h

/-- **An entry of a lower zone lies below the entries of a higher one.**
It ends at or below its zone's cap, which the other entry reaches past;
so if the other began before that end, they would share a frame. -/
theorem MapOk.hi_le_lo (hok : MapOk mmap) (he : e ∈ mmap) (he' : e' ∈ mmap)
    (hc : e.Contributes) (hc' : e'.Contributes) (hz : e.zone.rank < e'.zone.rank) :
    e.hi ≤ e'.lo := by
  by_contra hlt
  have hne : e ≠ e' := by rintro rfl; exact lt_irrefl _ hz
  have hcap := e.hi_le_cap
  have hcap' := MmapEntry.cap_lt_hi hz
  have hfit := hok.below e he hc.1
  have hfit' := hok.below e' he' hc'.1
  have hap : e.Apart e' := hok.disjoint.forall he he' hne
  have h1 := hc.2
  exact hap.no_frame (f := max e.lo e'.lo) hc.1 hc'.1 hfit hfit' (le_max_left ..) (by omega)
    (le_max_right ..) (by omega)

/-! ## The first pass -/

/-- The pages a list of entries gives to a zone. -/
def pagesIn (z : ZoneIdx) (l : List MmapEntry) : ℕ :=
  (l.map fun e => if e.available = true ∧ e.zone = z then e.hi - e.lo else 0).sum

/-- The pages a list of entries gives to all zones. -/
def pagesAll (l : List MmapEntry) : ℕ :=
  (l.map fun e => if e.available = true then e.hi - e.lo else 0).sum

/-- **What the zones look like after the entries `done`.** -/
structure FirstPass (done : List MmapEntry) (s : State) : Prop where
  covers : ∀ e ∈ done, e.Contributes →
    (s.zones e.zone).basePfn ≤ e.lo ∧ e.hi ≤ (s.zones e.zone).endPfn
  base_from : ∀ z, (s.zones z).basePfn = 2 ^ 64 - 1 ∨
    ∃ e ∈ done, e.Contributes ∧ e.zone = z ∧ e.lo = (s.zones z).basePfn
  end_from : ∀ z, (s.zones z).endPfn = 0 ∨
    ∃ e ∈ done, e.Contributes ∧ e.zone = z ∧ e.hi = (s.zones z).endPfn
  free : ∀ z, (s.zones z).freePages = 0
  total : ∀ z, (s.zones z).totalPages = pagesIn z done % 2 ^ 64
  system : s.totalSystemPages = pagesAll done % 2 ^ 64

theorem addEntry_of_not (h : ¬ e.Contributes) : addEntry s e = s := by
  unfold MmapEntry.Contributes at h
  rw [e.lo_lt_hi_iff] at h
  unfold addEntry
  cases hav : e.available with
  | false => simp
  | true =>
    by_cases h1 : e.start ≥ e.stop
    · simp [h1]
    · have h2 : e.stop ≤ 0x100000 := by
        by_contra h2
        exact h ⟨hav, h1, h2⟩
      simp [h2]

theorem addEntry_of (h : e.Contributes) : addEntry s e =
    { zones := Function.update s.zones e.zone
        ((s.zones e.zone).extend (4096 * e.lo) (4096 * e.hi))
      totalSystemPages := add64 s.totalSystemPages (e.hi - e.lo) } := by
  obtain ⟨hav, hlt⟩ := h
  obtain ⟨h1, h2⟩ := e.lo_lt_hi_iff.1 hlt
  have hsub : (4096 * e.hi - 4096 * e.lo) / pageSize = e.hi - e.lo := by
    unfold pageSize; omega
  simp only [addEntry, hav, Bool.not_true, Bool.false_eq_true, if_false, if_neg h1, if_neg h2]
  rw [e.clipLow_start, ← hsub, ← e.stop_eq_hi]
  rfl

/-- **Extending a zone takes the smaller base and the larger end.** The
empty zone's base is the largest word, whose product with the page size
wraps to the largest page address. -/
theorem extend_eq {zone : MemoryZone} {lo hi : ℕ} (hlt : lo < hi) (hhi : hi < 2 ^ 52)
    (hb : zone.basePfn = 2 ^ 64 - 1 ∨ zone.basePfn < 2 ^ 52) (he : zone.endPfn < 2 ^ 52) :
    (zone.extend (4096 * lo) (4096 * hi)).basePfn = min zone.basePfn lo ∧
      (zone.extend (4096 * lo) (4096 * hi)).endPfn = max zone.endPfn hi := by
  have hm : mul64 zone.endPfn pageSize = 4096 * zone.endPfn := by
    rw [mul64_of_lt (by unfold pageSize; omega), pageSize, Nat.mul_comm]
  -- the base of an empty zone is all ones, and the product wraps
  have hm' : mul64 zone.basePfn pageSize =
      if zone.basePfn < 2 ^ 52 then 4096 * zone.basePfn else 2 ^ 64 - 4096 := by
    rcases hb with hb | hb
    · rw [hb]; decide
    · rw [mul64_of_lt (by unfold pageSize; omega), if_pos hb, pageSize, Nat.mul_comm]
  simp only [MemoryZone.extend, hm, hm']
  simp only [pageSize]
  constructor
  · rcases hb with hb | hb
    · rw [if_neg (by omega : ¬ zone.basePfn < 2 ^ 52), if_pos (by omega), min_def]
      split <;> omega
    · rw [if_pos hb, min_def]
      split <;> split <;> omega
  · rw [max_def]
    split <;> split <;> omega

theorem FirstPass.base_cases {done : List MmapEntry} (h : FirstPass done s) (z : ZoneIdx) :
    (s.zones z).basePfn = 2 ^ 64 - 1 ∨ (s.zones z).basePfn < 2 ^ 52 := by
  rcases h.base_from z with hb | ⟨e, -, hc, -, hb⟩
  · exact Or.inl hb
  · refine Or.inr ?_
    have := e.hi_lt
    have := hc.2
    omega

theorem FirstPass.end_lt {done : List MmapEntry} (h : FirstPass done s) (z : ZoneIdx) :
    (s.zones z).endPfn < 2 ^ 52 := by
  rcases h.end_from z with he | ⟨e, -, -, -, he⟩
  · rw [he]; decide
  · rw [← he]; exact e.hi_lt

theorem pagesIn_append (z : ZoneIdx) (l : List MmapEntry) (e : MmapEntry) :
    pagesIn z (l ++ [e]) =
      pagesIn z l + if e.available = true ∧ e.zone = z then e.hi - e.lo else 0 := by
  simp [pagesIn]

theorem pagesAll_append (l : List MmapEntry) (e : MmapEntry) :
    pagesAll (l ++ [e]) = pagesAll l + if e.available = true then e.hi - e.lo else 0 := by
  simp [pagesAll]

/-- What came from an entry read so far came from one read so far. -/
theorem exists_mem_append {Q : Prop} {P : MmapEntry → Prop} {done : List MmapEntry}
    (h : Q ∨ ∃ e ∈ done, P e) (e' : MmapEntry) : Q ∨ ∃ e ∈ done ++ [e'], P e :=
  h.imp_right fun ⟨e, he, hp⟩ => ⟨e, List.mem_append_left _ he, hp⟩

/-- An entry that contributes extends its zone. -/
theorem FirstPass.step_of {done : List MmapEntry} (h : FirstPass done s) (hc : e.Contributes) :
    FirstPass (done ++ [e]) (addEntry s e) := by
  obtain ⟨hbase, hend⟩ := extend_eq hc.2 e.hi_lt (h.base_cases e.zone) (h.end_lt e.zone)
  have hlast : e ∈ done ++ [e] := List.mem_append_right _ (List.mem_singleton.2 rfl)
  rw [addEntry_of hc]
  refine ⟨?_, fun z => ?_, fun z => ?_, fun z => ?_, fun z => ?_, ?_⟩
  · intro e' he' hc'
    rw [List.mem_append, List.mem_singleton] at he'
    by_cases hz : e'.zone = e.zone
    · simp only [hz, Function.update_self, hbase, hend]
      rcases he' with he' | rfl
      · have := h.covers e' he' hc'
        rw [hz] at this
        omega
      · omega
    · simp only [Function.update_of_ne hz]
      rcases he' with he' | rfl
      · exact h.covers e' he' hc'
      · exact absurd rfl hz
  · by_cases hz : z = e.zone
    · subst hz
      simp only [Function.update_self, hbase]
      -- the base is the old one, or that of this entry
      rcases Nat.le_total (s.zones e.zone).basePfn e.lo with hle | hle
      · rw [min_eq_left hle]
        exact exists_mem_append (h.base_from e.zone) e
      · rw [min_eq_right hle]
        exact Or.inr ⟨e, hlast, hc, rfl, rfl⟩
    · simp only [Function.update_of_ne hz]
      exact exists_mem_append (h.base_from z) e
  · by_cases hz : z = e.zone
    · subst hz
      simp only [Function.update_self, hend]
      rcases Nat.le_total e.hi (s.zones e.zone).endPfn with hle | hle
      · rw [max_eq_left hle]
        exact exists_mem_append (h.end_from e.zone) e
      · rw [max_eq_right hle]
        exact Or.inr ⟨e, hlast, hc, rfl, rfl⟩
    · simp only [Function.update_of_ne hz]
      exact exists_mem_append (h.end_from z) e
  · by_cases hz : z = e.zone
    · subst hz
      simp only [Function.update_self]
      exact h.free e.zone
    · simp only [Function.update_of_ne hz]
      exact h.free z
  · rw [pagesIn_append]
    by_cases hz : z = e.zone
    · subst hz
      have hsub : (4096 * e.hi - 4096 * e.lo) / pageSize = e.hi - e.lo := by
        unfold pageSize; omega
      simp only [Function.update_self, MemoryZone.extend, hsub, h.total, add64, hc.1, and_self,
        if_true]
      omega
    · simp only [Function.update_of_ne hz, h.total, Ne.symm hz, and_false, if_false,
        Nat.add_zero]
  · simp only [pagesAll_append, hc.1, if_true, add64, h.system]
    omega

/-- An entry that does not contribute has no pages. -/
theorem FirstPass.step_of_not {done : List MmapEntry} (h : FirstPass done s)
    (hc : ¬ e.Contributes) : FirstPass (done ++ [e]) (addEntry s e) := by
  -- available, but of no whole page
  have hzero : e.available = true → e.hi - e.lo = 0 := by
    intro hav
    have : ¬ e.lo < e.hi := fun hlt => hc ⟨hav, hlt⟩
    omega
  rw [addEntry_of_not hc]
  refine ⟨?_, fun z => exists_mem_append (h.base_from z) e,
    fun z => exists_mem_append (h.end_from z) e, h.free, fun z => ?_, ?_⟩
  · intro e' he' hc'
    rw [List.mem_append, List.mem_singleton] at he'
    rcases he' with he' | rfl
    · exact h.covers e' he' hc'
    · exact absurd hc' hc
  · rw [pagesIn_append, h.total]
    split
    · rename_i hcond
      rw [hzero hcond.1, Nat.add_zero]
    · rw [Nat.add_zero]
  · rw [pagesAll_append, h.system]
    split
    · rename_i hav
      rw [hzero hav, Nat.add_zero]
    · rw [Nat.add_zero]

/-- **Reading one more entry.** -/
theorem FirstPass.step {done : List MmapEntry} (h : FirstPass done s) (e : MmapEntry) :
    FirstPass (done ++ [e]) (addEntry s e) := by
  by_cases hc : e.Contributes
  · exact h.step_of hc
  · exact h.step_of_not hc

/-- The zones before the map is read. -/
def emptyState : State := { zones := fun _ => emptyZone, totalSystemPages := 0 }

theorem firstPass_empty : FirstPass [] emptyState where
  covers e he := by simp at he
  base_from _ := Or.inl rfl
  end_from _ := Or.inl rfl
  free _ := rfl
  total _ := rfl
  system := rfl

/-- **The first pass, whole.** -/
theorem firstPass (mmap : List MmapEntry) : FirstPass mmap (mmap.foldl addEntry emptyState) := by
  have h := foldl_history (f := addEntry) (P := FirstPass) (l := mmap)
    (fun _ a _ _ _ h => h.step a) firstPass_empty
  simpa using h

/-- The bitmap phase touches the bitmaps only. -/
theorem fillBitmaps_zone (s : State) (z : ZoneIdx) :
    ((fillBitmaps s).zones z).basePfn = (s.zones z).basePfn ∧
      ((fillBitmaps s).zones z).endPfn = (s.zones z).endPfn ∧
      ((fillBitmaps s).zones z).totalPages = (s.zones z).totalPages ∧
      ((fillBitmaps s).zones z).freePages = (s.zones z).freePages := by
  unfold fillBitmaps
  by_cases h : (s.zones z).totalPages = 0 <;> simp [h]

theorem fillBitmaps_used {s : State} {z : ZoneIdx} (h : (s.zones z).totalPages ≠ 0) (idx : ℕ) :
    ((fillBitmaps s).zones z).used idx = true := by
  simp [fillBitmaps, h, MemoryZone.used]

/-! ## The second pass -/

/-- **The frames the map gives out**, each with the zone of its entry, in
the order the second pass meets them. -/
def claimed (mmap : List MmapEntry) : List (ZoneIdx × ℕ) :=
  mmap.flatMap fun e =>
    if e.available = true then (List.range (e.hi - e.lo)).map fun i => (e.zone, e.lo + i) else []

theorem mem_claimed {f : ℕ} : (z, f) ∈ claimed mmap ↔
    ∃ e ∈ mmap, e.available = true ∧ e.zone = z ∧ e.lo ≤ f ∧ f < e.hi := by
  simp only [claimed, List.mem_flatMap]
  constructor
  · rintro ⟨e, he, h⟩
    split at h
    · rename_i hav
      simp only [List.mem_map, List.mem_range, Prod.mk.injEq] at h
      obtain ⟨i, hi, hz, rfl⟩ := h
      exact ⟨e, he, hav, hz, by omega, by omega⟩
    · simp at h
  · rintro ⟨e, he, hav, rfl, h1, h2⟩
    refine ⟨e, he, ?_⟩
    rw [if_pos hav, List.mem_map]
    exact ⟨f - e.lo, by rw [List.mem_range]; omega, by rw [Nat.add_sub_cancel' h1]⟩

/-- One claimed frame, as the second pass handles it. -/
def freeClaimed (s : State) (c : ZoneIdx × ℕ) : State := freeEntryPage c.1 s (4096 * c.2)

theorem pageAddrs_eq (lo hi : ℕ) :
    pageAddrs (4096 * lo) (4096 * hi) = (List.range (hi - lo)).map fun i => 4096 * (lo + i) := by
  have hlen : (4096 * hi - 4096 * lo + (pageSize - 1)) / pageSize = hi - lo := by
    simp only [pageSize]; omega
  simp only [pageAddrs, hlen, pageSize, Nat.mul_add]

/-- **The second pass is a fold over the claimed frames.** -/
theorem foldl_freeEntry (mmap : List MmapEntry) (s : State) :
    mmap.foldl freeEntry s = (claimed mmap).foldl freeClaimed s := by
  rw [claimed, List.foldl_flatMap]
  congr 1
  funext s e
  unfold freeEntry
  cases hav : e.available with
  | false => simp
  | true =>
    simp only [Bool.not_true, Bool.false_eq_true, if_false, if_true, e.clipLow_start,
      e.stop_eq_hi, pageAddrs_eq, List.foldl_map]
    rw [← e.stop_eq_hi]
    rfl

/-- The frames one entry gives out. -/
theorem map_snd_claim (e : MmapEntry) :
    (if e.available = true then (List.range (e.hi - e.lo)).map fun i => (e.zone, e.lo + i)
      else []).map Prod.snd =
      if e.available = true then List.range' e.lo (e.hi - e.lo) else [] := by
  split
  · rw [List.map_map, List.range'_eq_map_range]
    rfl
  · rfl

/-- On disjoint entries no frame is claimed twice, in whatever zone. -/
theorem MapOk.frames_nodup (hok : MapOk mmap) : ((claimed mmap).map Prod.snd).Nodup := by
  rw [claimed, List.map_flatMap, List.nodup_flatMap]
  simp only [map_snd_claim]
  constructor
  · intro e _
    split
    · exact List.nodup_range' _
    · exact List.nodup_nil
  · refine hok.disjoint.imp_of_mem fun {e e'} he he' hap => ?_
    simp only [Function.onFun, List.disjoint_left]
    intro f hf hf'
    -- a frame of two entries would be in the bytes of both
    split at hf
    · rename_i hav
      split at hf'
      · rename_i hav'
        rw [List.mem_range'_1] at hf hf'
        exact hap.no_frame (f := f) hav hav' (hok.below e he hav) (hok.below e' he' hav')
          (by omega) (by omega) (by omega) (by omega)
      · simp at hf'
    · simp at hf

theorem MapOk.claimed_nodup (hok : MapOk mmap) : (claimed mmap).Nodup :=
  List.Nodup.of_map _ hok.frames_nodup

/-- A frame of a map below the address limit has a 40-bit number. -/
theorem MapOk.hi_le (hok : MapOk mmap) (he : e ∈ mmap) (hav : e.available = true) :
    e.hi ≤ 2 ^ 40 := by
  have hb := hok.below e he hav
  have hs := e.stop_eq
  simp only [MmapEntry.hi, pageSize]
  omega

theorem pagesAll_eq (mmap : List MmapEntry) : pagesAll mmap = (claimed mmap).length := by
  rw [pagesAll, claimed, List.length_flatMap]
  congr 1
  refine List.map_congr_left fun e _ => ?_
  split <;> simp

theorem pagesIn_eq (z : ZoneIdx) (mmap : List MmapEntry) :
    pagesIn z mmap = (claimed mmap).countP fun c => c.1 = z := by
  rw [pagesIn, claimed, List.countP_flatMap]
  congr 1
  refine List.map_congr_left fun e _ => ?_
  by_cases hav : e.available = true
  · by_cases hz : e.zone = z
    · simp [hav, hz, List.countP_map, Function.comp_def]
    · simp [hav, hz, List.countP_map, Function.comp_def]
  · simp [hav]

/-- The zones share out the claimed pages. -/
theorem pagesIn_sum (mmap : List MmapEntry) :
    pagesIn .dma mmap + pagesIn .dma32 mmap + pagesIn .normal mmap = pagesAll mmap := by
  induction mmap with
  | nil => rfl
  | cons e l ih =>
    simp only [pagesIn, pagesAll, List.map_cons, List.sum_cons] at ih ⊢
    cases hz : e.zone <;> by_cases hav : e.available = true <;> simp [hav] <;> omega

theorem MapOk.pagesAll_le (hok : MapOk mmap) : pagesAll mmap ≤ 2 ^ 40 := by
  have hsub : (claimed mmap).map Prod.snd ⊆ List.range (2 ^ 40) := by
    intro f hf
    rw [List.mem_map] at hf
    obtain ⟨⟨z, g⟩, hg, rfl⟩ := hf
    obtain ⟨e, he, hav, -, -, hlt⟩ := mem_claimed.1 hg
    rw [List.mem_range]
    exact lt_of_lt_of_le hlt (hok.hi_le he hav)
  have hle := (List.subperm_of_subset hok.frames_nodup hsub).length_le
  rw [List.length_map, List.length_range] at hle
  rw [pagesAll_eq]
  exact hle

theorem MapOk.pagesIn_le (hok : MapOk mmap) (z : ZoneIdx) : pagesIn z mmap ≤ 2 ^ 40 := by
  have hsum := pagesIn_sum mmap
  have hall := hok.pagesAll_le
  cases z <;> omega

/-- Two states with the same zone ranges and totals. -/
structure SameLayout (s t : State) : Prop where
  base : ∀ z, (s.zones z).basePfn = (t.zones z).basePfn
  stop : ∀ z, (s.zones z).endPfn = (t.zones z).endPfn
  total : ∀ z, (s.zones z).totalPages = (t.zones z).totalPages
  system : s.totalSystemPages = t.totalSystemPages

theorem SameLayout.refl (s : State) : SameLayout s s := ⟨fun _ => rfl, fun _ => rfl, fun _ => rfl, rfl⟩

theorem SameLayout.symm {s t : State} (h : SameLayout s t) : SameLayout t s :=
  ⟨fun z => (h.base z).symm, fun z => (h.stop z).symm, fun z => (h.total z).symm, h.system.symm⟩

theorem SameLayout.trans {s t u : State} (h : SameLayout s t) (h' : SameLayout t u) :
    SameLayout s u :=
  ⟨fun z => (h.base z).trans (h'.base z), fun z => (h.stop z).trans (h'.stop z),
    fun z => (h.total z).trans (h'.total z), h.system.trans h'.system⟩

theorem SameLayout.span {s t : State} (h : SameLayout s t) (z : ZoneIdx) :
    (s.zones z).span = (t.zones z).span := by
  rw [MemoryZone.span, MemoryZone.span, h.base, h.stop]

/-- Replacing a zone by one of the same range and total keeps the layout. -/
theorem SameLayout.setZone {s : State} {z : ZoneIdx} {zone : MemoryZone}
    (hb : zone.basePfn = (s.zones z).basePfn) (he : zone.endPfn = (s.zones z).endPfn)
    (ht : zone.totalPages = (s.zones z).totalPages) : SameLayout (s.setZone z zone) s := by
  refine ⟨fun w => ?_, fun w => ?_, fun w => ?_, rfl⟩ <;> by_cases hw : w = z
  all_goals first
    | (subst hw; simpa using by assumption)
    | rw [State.setZone_of_ne hw]

/-- **The second pass after the frames `done`**: their bits are clear and
no others, and every counter is the number of clear bits. -/
structure SecondPass (s₀ : State) (done : List (ZoneIdx × ℕ)) (s : State) : Prop where
  layout : SameLayout s s₀
  clear_iff : ∀ z idx, (s₀.zones z).totalPages ≠ 0 →
    ((s.zones z).used idx = false ↔ (z, (s₀.zones z).basePfn + idx) ∈ done)
  counted : ∀ z, (s₀.zones z).totalPages ≠ 0 →
    (s.zones z).freePages = freeCount (s.zones z).used (s.zones z).span
  charged : ∀ z, (s₀.zones z).totalPages ≠ 0 →
    (s.zones z).freePages = done.countP fun c => c.1 = z
  unpopulated : ∀ z, (s₀.zones z).totalPages = 0 → (s.zones z).freePages = 0

/-- A zone with a frame given to it. -/
def MemoryZone.give (zone : MemoryZone) (f : ℕ) : MemoryZone :=
  { zone with
    bitmap := bitmapClear zone.bitmap (f - zone.basePfn)
    freePages := add64 zone.freePages 1 }

/-- A claimed frame of its zone's range is given to the zone. -/
theorem freeClaimed_eq {s : State} {f : ℕ} (ht : (s.zones z).totalPages ≠ 0)
    (hb : (s.zones z).basePfn ≤ f) (he : f < (s.zones z).endPfn) :
    freeClaimed s (z, f) = s.setZone z ((s.zones z).give f) := by
  have hpfn : 4096 * f / pageSize = f := by
    simp only [pageSize]
    omega
  have hin : ¬ (f < (s.zones z).basePfn ∨ f ≥ (s.zones z).endPfn) := by omega
  simp only [freeClaimed, freeEntryPage, hpfn, if_neg hin, if_neg ht, MemoryZone.give]

theorem give_used {zone : MemoryZone} {f idx : ℕ} (hb : zone.basePfn ≤ f) :
    (zone.give f).used idx = false ↔ zone.used idx = false ∨ zone.basePfn + idx = f := by
  simp only [MemoryZone.give, MemoryZone.used, bitmapTest_clear, Bool.and_eq_false_iff,
    Bool.not_eq_false', decide_eq_true_eq]
  refine or_congr_right ?_
  omega

/-- Giving a frame that is marked adds one to what is free. -/
theorem freeCount_give_frame {zone : MemoryZone} {f : ℕ} (hb : zone.basePfn ≤ f)
    (he : f < zone.endPfn) (hu : zone.used (f - zone.basePfn) = true) :
    freeCount (zone.give f).used (zone.give f).span = freeCount zone.used zone.span + 1 := by
  have hidx : f - zone.basePfn < zone.span := by
    simp only [MemoryZone.span]
    omega
  refine freeCount_give hidx hu fun i _ => ?_
  simp [MemoryZone.give, MemoryZone.used]

theorem SecondPass.step {s₀ s : State} {done : List (ZoneIdx × ℕ)} {f : ℕ}
    (h : SecondPass s₀ done s) (hnew : (z, f) ∉ done) (ht : (s₀.zones z).totalPages ≠ 0)
    (hb : (s₀.zones z).basePfn ≤ f) (he : f < (s₀.zones z).endPfn)
    (hlt : (s₀.zones z).endPfn < 2 ^ 52) :
    SecondPass s₀ (done ++ [(z, f)]) (freeClaimed s (z, f)) := by
  have hbase := h.layout.base z
  have hend := h.layout.stop z
  have htot := h.layout.total z
  -- a frame no entry claimed before is still marked
  have hused : (s.zones z).used (f - (s.zones z).basePfn) = true := by
    by_contra hu
    rw [Bool.not_eq_true, h.clear_iff z _ ht, hbase, Nat.add_sub_cancel' hb] at hu
    exact hnew hu
  have hcount := freeCount_give_frame (hbase.trans_le hb) (he.trans_eq hend.symm) hused
  have hfree : ((s.zones z).give f).freePages = (s.zones z).freePages + 1 := by
    have hle := freeCount_le (s.zones z).used (s.zones z).span
    refine add64_of_lt ?_
    rw [h.counted z ht]
    simp only [MemoryZone.span] at hle ⊢
    omega
  have hlay : SameLayout (s.setZone z ((s.zones z).give f)) s := SameLayout.setZone rfl rfl rfl
  rw [freeClaimed_eq (htot.trans_ne ht) (hbase.trans_le hb) (he.trans_eq hend.symm)]
  refine ⟨hlay.trans h.layout, fun w idx => ?_,
    State.setZone_forall
      (P := fun w zone => (s₀.zones w).totalPages ≠ 0 → zone.freePages = freeCount zone.used zone.span)
      (fun _ => by rw [hfree, hcount, h.counted z ht]) fun w _ => h.counted w,
    State.setZone_forall
      (P := fun w zone => (s₀.zones w).totalPages ≠ 0 →
        zone.freePages = (done ++ [(z, f)]).countP fun c => c.1 = w)
      (fun _ => ?_) fun w hzw hw => ?_,
    State.setZone_forall (P := fun w zone => (s₀.zones w).totalPages = 0 → zone.freePages = 0)
      (fun h0 => absurd h0 ht) fun w _ => h.unpopulated w⟩
  · rw [List.mem_append, List.mem_singleton, Prod.mk.injEq]
    refine State.setZone_forall
      (P := fun w zone => (s₀.zones w).totalPages ≠ 0 → (zone.used idx = false ↔
        (w, (s₀.zones w).basePfn + idx) ∈ done ∨ w = z ∧ (s₀.zones w).basePfn + idx = f))
      (fun hw => ?_) (fun w hzw hw => ?_) w
    · rw [give_used (hbase.trans_le hb), h.clear_iff z idx hw, hbase]
      simp only [true_and]
    · rw [h.clear_iff w idx hw]
      simp only [hzw, false_and, or_false]
  · rw [hfree, h.charged z ht, List.countP_append]
    simp
  · rw [h.charged w hw, List.countP_append]
    simp [Ne.symm hzw]

/-- **The second pass, whole**, on a map the firmware can report. -/
theorem MapOk.secondPass (hok : MapOk mmap) :
    SecondPass (fillBitmaps (mmap.foldl addEntry emptyState)) (claimed mmap)
      (mmap.foldl freeEntry (fillBitmaps (mmap.foldl addEntry emptyState))) := by
  have h1 := firstPass mmap
  generalize hs₁ : mmap.foldl addEntry emptyState = s₁ at h1
  have hfill := fillBitmaps_zone s₁
  have hstart : SecondPass (fillBitmaps s₁) [] (fillBitmaps s₁) := by
    refine ⟨SameLayout.refl _, fun z idx hz => ?_, fun z hz => ?_, fun z hz => ?_, fun z _ => ?_⟩
    · rw [(hfill z).2.2.1] at hz
      simp [fillBitmaps_used hz]
    · rw [(hfill z).2.2.1] at hz
      rw [(hfill z).2.2.2, h1.free, freeCount_of_all_used fun i _ => fillBitmaps_used hz i]
    · rw [(hfill z).2.2.2, h1.free]
      rfl
    · rw [(hfill z).2.2.2, h1.free]
  rw [foldl_freeEntry]
  have hnodup := hok.claimed_nodup
  have hfold := foldl_history (f := freeClaimed) (P := SecondPass (fillBitmaps s₁))
    (l := claimed mmap) (d := []) (fun d' c r t heq hP => ?_) hstart
  · simpa using hfold
  · obtain ⟨z, f⟩ := c
    rw [List.nil_append] at heq
    have hmem : (z, f) ∈ claimed mmap := by rw [heq]; simp
    -- no frame is freed twice
    have hnew : (z, f) ∉ d' := by
      rw [heq] at hnodup
      exact fun hin => (List.nodup_append.1 hnodup).2.2 _ hin _ List.mem_cons_self rfl
    obtain ⟨e, he, hav, rfl, hlo, hhi⟩ := mem_claimed.1 hmem
    have hcov := h1.covers e he ⟨hav, by omega⟩
    have htot : ((fillBitmaps s₁).zones e.zone).totalPages ≠ 0 := by
      rw [(hfill _).2.2.1, h1.total, Nat.mod_eq_of_lt (by have := hok.pagesIn_le e.zone; omega),
        pagesIn_eq]
      exact (List.countP_pos_iff.2 ⟨_, hmem, by simp⟩).ne'
    refine hP.step hnew htot ?_ ?_ ?_
    · rw [(hfill _).1]; omega
    · rw [(hfill _).2.1]; omega
    · rw [(hfill _).2.1]; exact h1.end_lt _

/-- **The zones before the reservation.** -/
structure Mapped (mmap : List MmapEntry) (s : State) : Prop where
  covers : ∀ z f, (z, f) ∈ claimed mmap →
    (s.zones z).basePfn ≤ f ∧ f < (s.zones z).endPfn
  base_from : ∀ z, (s.zones z).basePfn = 2 ^ 64 - 1 ∨
    ∃ e ∈ mmap, e.Contributes ∧ e.zone = z ∧ e.lo = (s.zones z).basePfn
  end_from : ∀ z, (s.zones z).endPfn = 0 ∨
    ∃ e ∈ mmap, e.Contributes ∧ e.zone = z ∧ e.hi = (s.zones z).endPfn
  clear_iff : ∀ z idx, idx < (s.zones z).span →
    ((s.zones z).used idx = false ↔ (z, (s.zones z).basePfn + idx) ∈ claimed mmap)
  counted : ∀ z, (s.zones z).freePages = freeCount (s.zones z).used (s.zones z).span
  free_eq : ∀ z, (s.zones z).freePages = pagesIn z mmap
  total : ∀ z, (s.zones z).totalPages = pagesIn z mmap
  system : s.totalSystemPages = pagesAll mmap

/-- **Both passes together.** A zone no entry went to has an empty range
and nothing to count. -/
theorem MapOk.mapped (hok : MapOk mmap) :
    Mapped mmap (mmap.foldl freeEntry (fillBitmaps (mmap.foldl addEntry emptyState))) := by
  have h1 := firstPass mmap
  have h2 := hok.secondPass
  generalize mmap.foldl addEntry emptyState = s₁ at h1 h2 ⊢
  generalize mmap.foldl freeEntry (fillBitmaps s₁) = s₂ at h2 ⊢
  have hfill := fillBitmaps_zone s₁
  have hbase : ∀ z, (s₂.zones z).basePfn = (s₁.zones z).basePfn := fun z => by
    rw [h2.layout.base, (hfill z).1]
  have hend : ∀ z, (s₂.zones z).endPfn = (s₁.zones z).endPfn := fun z => by
    rw [h2.layout.stop, (hfill z).2.1]
  have htot : ∀ z, (s₂.zones z).totalPages = pagesIn z mmap := fun z => by
    rw [h2.layout.total, (hfill z).2.2.1, h1.total, Nat.mod_eq_of_lt]
    have := hok.pagesIn_le z
    omega
  -- a zone has frames only through an entry that has pages
  have hempty : ∀ z, (s₂.zones z).totalPages = 0 → (s₂.zones z).span = 0 := by
    intro z hz
    rw [htot, pagesIn_eq, List.countP_eq_zero] at hz
    rcases h1.end_from z with he | ⟨e, he, hc, hez, -⟩
    · rw [MemoryZone.span, hend, he, Nat.zero_sub]
    · exact absurd (by simp) (hz (z, e.lo)
        (mem_claimed.2 ⟨e, he, hc.1, hez, le_rfl, hc.2⟩))
  have hpop : ∀ z, (s₂.zones z).totalPages = ((fillBitmaps s₁).zones z).totalPages :=
    h2.layout.total
  refine ⟨?_, ?_, ?_, ?_, ?_, ?_, htot, ?_⟩
  · intro z f hf
    obtain ⟨e, he, hav, rfl, hlo, hhi⟩ := mem_claimed.1 hf
    have hcov := h1.covers e he ⟨hav, by omega⟩
    rw [hbase, hend]
    omega
  · intro z
    rw [hbase]
    exact h1.base_from z
  · intro z
    rw [hend]
    exact h1.end_from z
  · intro z idx hidx
    have hz : (s₂.zones z).totalPages ≠ 0 := fun hz => by rw [hempty z hz] at hidx; omega
    rw [h2.clear_iff z idx (hpop z ▸ hz), ← h2.layout.base]
  · intro z
    by_cases hz : (s₂.zones z).totalPages = 0
    · rw [h2.unpopulated z (hpop z ▸ hz), hempty z hz]
      rfl
    · exact h2.counted z (hpop z ▸ hz)
  · intro z
    by_cases hz : (s₂.zones z).totalPages = 0
    · rw [h2.unpopulated z (hpop z ▸ hz), ← htot, hz]
    · rw [h2.charged z (hpop z ▸ hz), pagesIn_eq]
  · rw [h2.layout.system]
    change s₁.totalSystemPages = _
    rw [h1.system, Nat.mod_eq_of_lt]
    have := hok.pagesAll_le
    omega

/-! ## The reservation -/

/-- **The reservation after the frames below `k`**: `ZONE_NORMAL` has lost
exactly those, and its counter is still the number of clear bits. -/
structure Reserved (s₀ : State) (k : ℕ) (s : State) : Prop where
  layout : SameLayout s s₀
  others : ∀ z, z ≠ .normal → s.zones z = s₀.zones z
  clear_iff : ∀ idx, (s.zones .normal).used idx = false ↔
    (s₀.zones .normal).used idx = false ∧ k ≤ (s₀.zones .normal).basePfn + idx
  counted : (s.zones .normal).freePages =
    freeCount (s.zones .normal).used (s.zones .normal).span
  free_le : (s.zones .normal).freePages ≤ (s₀.zones .normal).freePages

/-- Reserving a frame is marking it. -/
theorem reservePage_eq {k : ℕ} (hk : k ≥ (s.zones .normal).basePfn)
    (hpos : 0 < (s.zones .normal).freePages) :
    reservePage s k = s.setZone .normal ((s.zones .normal).mark k 1) := by
  simp only [reservePage, if_pos hk, if_pos hpos, MemoryZone.mark, List.range_one,
    List.foldl_cons, List.foldl_nil, Nat.add_zero]

theorem Reserved.step {s₀ s : State} {k : ℕ} (h : Reserved s₀ k s)
    (hend : k < (s₀.zones .normal).endPfn)
    (hclear : (s₀.zones .normal).basePfn ≤ k →
      (s₀.zones .normal).used (k - (s₀.zones .normal).basePfn) = false)
    (hlt : (s₀.zones .normal).endPfn < 2 ^ 52) :
    Reserved s₀ (k + 1) (reservePage s k) := by
  have hbase := h.layout.base .normal
  have hstop := h.layout.stop .normal
  by_cases hk : k ≥ (s.zones .normal).basePfn
  · have hrun : (s.zones .normal).FreeRun k 1 := by
      refine ⟨hk, by omega, fun f h1 h2 => ?_⟩
      rw [show f = k by omega, h.clear_iff, hbase]
      exact ⟨hclear (by omega), by omega⟩
    have hcount := freeCount_mark hrun
    have hbound := freeCount_le (s.zones .normal).used (s.zones .normal).span
    rw [← h.counted] at hcount hbound
    have hsub : sub64 (s.zones .normal).freePages 1 = (s.zones .normal).freePages - 1 := by
      refine sub64_of_le ?_ (by omega)
      simp only [MemoryZone.span] at hbound
      omega
    rw [reservePage_eq hk (by omega)]
    refine ⟨?_, fun z hz => ?_, fun idx => ?_, ?_, ?_⟩
    · exact SameLayout.trans (SameLayout.setZone mark_basePfn mark_endPfn mark_totalPages) h.layout
    · rw [State.setZone_of_ne hz]
      exact h.others z hz
    · rw [State.setZone_self, ← Bool.not_eq_true, mark_used hk, not_or, Bool.not_eq_true,
        h.clear_iff idx, hbase]
      constructor
      · rintro ⟨⟨hu, hle⟩, hne⟩
        exact ⟨hu, by omega⟩
      · rintro ⟨hu, hle⟩
        exact ⟨⟨hu, by omega⟩, by omega⟩
    · rw [State.setZone_self, mark_freePages, mark_span, hsub]
      omega
    · rw [State.setZone_self, mark_freePages, hsub]
      have := h.free_le
      omega
  · have heq : reservePage s k = s := by simp only [reservePage, if_neg hk]
    rw [heq]
    refine ⟨h.layout, h.others, fun idx => ?_, h.counted, h.free_le⟩
    rw [h.clear_iff idx]
    constructor <;> rintro ⟨hu, hle⟩ <;> exact ⟨hu, by omega⟩

/-- **The reservation, whole.** Where `ZONE_NORMAL` starts below 16 MB, the
one entry it starts with reaches past 4 GB, so every frame the loop
reserves was free. -/
theorem Mapped.reserved {s₀ : State} (h : Mapped mmap s₀) :
    Reserved s₀ (min 0x1000 (s₀.zones .normal).endPfn) (reserveKernel s₀) := by
  have hlt : (s₀.zones .normal).endPfn < 2 ^ 52 := by
    rcases h.end_from .normal with he | ⟨e, -, -, -, he⟩
    · rw [he]; decide
    · rw [← he]; exact e.hi_lt
  have hcover : ∀ k, k < 0x1000 → (s₀.zones .normal).basePfn ≤ k →
      (ZoneIdx.normal, k) ∈ claimed mmap := by
    intro k hk hle
    rcases h.base_from .normal with hb | ⟨e, he, hc, hz, hb⟩
    · omega
    · have hcap := MmapEntry.cap_lt_hi (e := e) (w := .dma) (by rw [hz]; decide)
      simp only [ZoneIdx.cap] at hcap
      exact mem_claimed.2 ⟨e, he, hc.1, hz, by omega, by omega⟩
  unfold reserveKernel
  generalize hn : min 0x1000 (s₀.zones .normal).endPfn = n
  have hn1 : n ≤ 0x1000 := by omega
  have hn2 : n ≤ (s₀.zones .normal).endPfn := by omega
  clear hn
  induction n with
  | zero =>
    exact ⟨SameLayout.refl _, fun _ _ => rfl, fun idx => by simp, h.counted _, le_rfl⟩
  | succ n ih =>
    rw [List.range_succ, List.foldl_append]
    refine (ih (by omega) (by omega)).step (by omega) (fun hle => ?_) (by omega)
    rw [h.clear_iff _ _ (by simp only [MemoryZone.span]; omega), Nat.add_sub_cancel' hle]
    exact hcover n (by omega) hle

/-- **The state `pmm_init` builds** on a map the firmware can report. -/
structure InitSpec (mmap : List MmapEntry) (s : State) : Prop where
  /-- Every claimed frame is inside the range of its zone. -/
  covers : ∀ z f, (z, f) ∈ claimed mmap →
    (s.zones z).basePfn ≤ f ∧ f < (s.zones z).endPfn
  /-- The ranges of two zones have no frame in common. -/
  apart : ∀ z w f, z ≠ w → (s.zones z).basePfn ≤ f → f < (s.zones z).endPfn →
    ¬ ((s.zones w).basePfn ≤ f ∧ f < (s.zones w).endPfn)
  end_le : ∀ z, (s.zones z).endPfn ≤ 2 ^ 40
  /-- A bit is clear exactly for a claimed frame that is not reserved. -/
  clear_iff : ∀ z idx, idx < (s.zones z).span → ((s.zones z).used idx = false ↔
    (z, (s.zones z).basePfn + idx) ∈ claimed mmap ∧
      ¬ (z = .normal ∧ (s.zones z).basePfn + idx < 0x1000))
  counted : ∀ z, (s.zones z).freePages = freeCount (s.zones z).used (s.zones z).span
  free_le : ∀ z, (s.zones z).freePages ≤ (s.zones z).totalPages
  total : ∀ z, (s.zones z).totalPages = pagesIn z mmap
  system : s.totalSystemPages = pagesAll mmap

/-- The ranges of a lower and a higher zone do not meet. -/
theorem Mapped.range_lt {s₀ : State} (h : Mapped mmap s₀) (hok : MapOk mmap)
    (hzw : z.rank < w.rank) {f : ℕ} (hf : f < (s₀.zones z).endPfn) :
    f < (s₀.zones w).basePfn := by
  rcases h.end_from z with he | ⟨e, he, hc, hez, hhi⟩
  · omega
  rcases h.base_from w with hb | ⟨e', he', hc', hew, hlo⟩
  · have := e.hi_lt
    omega
  · have := hok.hi_le_lo he he' hc hc' (by rw [hez, hew]; exact hzw)
    omega

theorem ZoneIdx.rank_inj (h : z.rank = w.rank) : z = w := by
  cases z <;> cases w <;> first | rfl | cases h

/-- **`pmm_init` meets its specification.** -/
theorem MapOk.initSpec (hok : MapOk mmap) : InitSpec mmap (pmmInit mmap) := by
  have hm := hok.mapped
  have hr := hm.reserved
  change InitSpec mmap (reserveKernel (mmap.foldl freeEntry
    (fillBitmaps (mmap.foldl addEntry emptyState))))
  generalize mmap.foldl freeEntry (fillBitmaps (mmap.foldl addEntry emptyState)) = s₀ at hm hr ⊢
  have hbase := hr.layout.base
  have hend := hr.layout.stop
  have hspan := fun z => hr.layout.span z
  refine ⟨fun z f hf => ?_, fun z w f hzw h1 h2 h3 => ?_, fun z => ?_, fun z idx hidx => ?_,
    fun z => ?_, fun z => ?_, fun z => ?_, ?_⟩
  · rw [hbase, hend]
    exact hm.covers z f hf
  · rw [hbase, hend] at *
    rcases Nat.lt_or_ge z.rank w.rank with hlt | hge
    · have := hm.range_lt hok hlt h2
      omega
    · have hlt : w.rank < z.rank :=
        lt_of_le_of_ne hge fun h => hzw (ZoneIdx.rank_inj h.symm)
      have := hm.range_lt hok hlt h3.2
      omega
  · rw [hend]
    rcases hm.end_from z with he | ⟨e, he, hc, -, hhi⟩
    · omega
    · rw [← hhi]
      exact hok.hi_le he hc.1
  · rw [hspan] at hidx
    rw [hbase]
    by_cases hz : z = .normal
    · subst hz
      rw [hr.clear_iff, hm.clear_iff _ _ hidx]
      simp only [MemoryZone.span] at hidx
      refine and_congr_right fun _ => ?_
      simp only [true_and]
      omega
    · rw [hr.others z hz, hm.clear_iff z idx hidx]
      simp [hz]
  · by_cases hz : z = .normal
    · subst hz
      exact hr.counted
    · rw [hr.others z hz]
      exact hm.counted z
  · rw [hr.layout.total, hm.total, ← hm.free_eq]
    by_cases hz : z = .normal
    · subst hz
      exact hr.free_le
    · rw [hr.others z hz]
  · rw [hr.layout.total]
    exact hm.total z
  · rw [hr.layout.system]
    exact hm.system

end Pmm

end Kos
