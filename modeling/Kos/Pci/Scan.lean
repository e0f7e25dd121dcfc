import Mathlib.Data.List.Sort
import Kos.Common.Failing
import Kos.Pci.Function
/-!
# Pci — the table after the scan

The three loops are one loop over the functions on the bus, in the order
of their addresses, that enters the functions listed and stops entering
when the table is full. What is listed does not change while the scan
goes on, and an entry is what the function by itself comes out as.
-/

namespace Kos

namespace Pci

variable {c : Space} {fn fn' : Fn} {fuel : ℕ} {st st' : State} {l : List Fn}

/-! ## The functions of the bus -/

/-- The order of the addresses. -/
def Fn.Before (a b : Fn) : Prop :=
  a.bus < b.bus ∨ a.bus = b.bus ∧ (a.slot < b.slot ∨ a.slot = b.slot ∧ a.func < b.func)

theorem Fn.Before.ne (h : fn.Before fn') : fn ≠ fn' := by
  rintro rfl
  rcases h with h | ⟨-, h | ⟨-, h⟩⟩ <;> exact UInt8.lt_irrefl _ h

instance : Std.Irrefl Fn.Before := ⟨fun _ h => h.ne rfl⟩

instance : Std.Antisymm Fn.Before where
  antisymm a b h h' := by
    simp only [Fn.Before, UInt8.lt_iff_toNat_lt, ← UInt8.toNat_inj] at h h'
    omega

/-- Every function the loops run over. -/
def allFns : List Fn :=
  (upTo 256).flatMap fun bus => (upTo 32).flatMap fun slot => (upTo 8).map (Fn.mk bus slot)

theorem mem_upTo {n : ℕ} (hn : n ≤ 256) {x : UInt8} : x ∈ upTo n ↔ x.toNat < n := by
  unfold upTo
  rw [List.mem_map]
  constructor
  · rintro ⟨k, hk, rfl⟩
    rw [List.mem_range] at hk
    rwa [UInt8.toNat_ofNat_of_lt' (by simpa using (by omega : k < 256))]
  · exact fun hx => ⟨x.toNat, List.mem_range.2 hx, UInt8.ofNat_toNat⟩

theorem pairwise_upTo {n : ℕ} (hn : n ≤ 256) : (upTo n).Pairwise (· < ·) := by
  unfold upTo
  rw [List.pairwise_map]
  refine List.pairwise_lt_range.imp_of_mem fun {a b} ha hb hab => ?_
  rw [List.mem_range] at ha hb
  rw [UInt8.lt_iff_toNat_lt, UInt8.toNat_ofNat_of_lt' (by simpa using (by omega : a < 256)),
    UInt8.toNat_ofNat_of_lt' (by simpa using (by omega : b < 256))]
  exact hab

theorem mem_allFns : fn ∈ allFns ↔ fn.OnBus := by
  have hbus := fn.bus.toNat_lt
  unfold allFns
  simp only [List.mem_flatMap, List.mem_map, mem_upTo (le_refl 256),
    mem_upTo (by decide : 32 ≤ 256), mem_upTo (by decide : 8 ≤ 256)]
  constructor
  · rintro ⟨bus, -, slot, hslot, func, hfunc, rfl⟩
    exact ⟨hslot, hfunc⟩
  · exact fun h => ⟨fn.bus, hbus, fn.slot, h.1, fn.func, h.2, rfl⟩

/-- **The loops run over the functions in the order of their addresses.** -/
theorem pairwise_allFns : allFns.Pairwise Fn.Before := by
  unfold allFns
  rw [List.pairwise_flatMap]
  refine ⟨fun bus _ => ?_, (pairwise_upTo (le_refl 256)).imp fun hlt x hx y hy => ?_⟩
  · rw [List.pairwise_flatMap]
    refine ⟨fun slot _ => ?_, (pairwise_upTo (by decide)).imp fun hlt x hx y hy => ?_⟩
    · rw [List.pairwise_map]
      exact (pairwise_upTo (by decide)).imp fun hlt => Or.inr ⟨rfl, Or.inr ⟨rfl, hlt⟩⟩
    · obtain ⟨_, -, rfl⟩ := List.mem_map.1 hx
      obtain ⟨_, -, rfl⟩ := List.mem_map.1 hy
      exact Or.inr ⟨rfl, Or.inl hlt⟩
  · simp only [List.mem_flatMap, List.mem_map] at hx hy
    obtain ⟨_, -, _, -, rfl⟩ := hx
    obtain ⟨_, -, _, -, rfl⟩ := hy
    exact Or.inl hlt

/-! ## What is listed -/

/-- Something answers at this function. -/
def present (c : Space) (fn : Fn) : Bool := !absent (pciRead c fn 0)

/-- Function 0 of the slot has the multifunction bit. -/
def multifunction (c : Space) (fn : Fn) : Bool :=
  (pciRead c { fn with func := 0 } 0x0E >>> 16).toUInt8 &&& 0x80 != 0

/-- The test that the loops come to, for a function on the bus. -/
def listed (c : Space) (fn : Fn) : Bool :=
  present c { fn with func := 0 } && present c fn && (fn.func == 0 || multifunction c fn)

/-- **The functions that the table is for.** -/
def Listed (c : Space) (fn : Fn) : Prop :=
  fn.OnBus ∧ present c { fn with func := 0 } ∧ present c fn ∧ (fn.func = 0 ∨ multifunction c fn)

/-- The functions listed, in the order of their addresses. -/
def inOrder (c : Space) : List Fn := allFns.filter (listed c)

/-- The functions that get an entry: the table has room for no more. -/
def entered (c : Space) : List Fn := (inOrder c).take maxPciDevices

theorem mem_inOrder : fn ∈ inOrder c ↔ Listed c fn := by
  simp [inOrder, listed, Listed, mem_allFns, and_assoc]

theorem pairwise_inOrder (c : Space) : (inOrder c).Pairwise Fn.Before :=
  pairwise_allFns.filter _

/-- A list that is in order and has the same functions is the list. -/
theorem inOrder_eq (hl : l.Pairwise Fn.Before) (hmem : ∀ fn, fn ∈ l ↔ Listed c fn) :
    inOrder c = l :=
  (pairwise_inOrder c).eq_of_mem_iff hl fun fn => mem_inOrder.trans (hmem fn).symm

/-- What the scan reads of a function to tell whether it is listed. -/
def SameHeads (c c' : Space) : Prop :=
  ∀ fn, pciRead c' fn 0 = pciRead c fn 0 ∧ pciRead c' fn 0x0E = pciRead c fn 0x0E

theorem OnlyBars.sameHeads {c' : Space} (h : OnlyBars fn c c') : SameHeads c c' :=
  fun fn' => ⟨h.read (Or.inl (by decide)) fn', h.read (Or.inl (by decide)) fn'⟩

theorem SameHeads.trans {c' c'' : Space} (h : SameHeads c c') (h' : SameHeads c' c'') :
    SameHeads c c'' :=
  fun fn => ⟨(h' fn).1.trans (h fn).1, (h' fn).2.trans (h fn).2⟩

/-! ## The loops as one -/

/-- One function entered, if there is room. -/
def enter (fuel : ℕ) (st : State) (fn : Fn) : Option State :=
  if maxPciDevices ≤ st.devices.length then some st
  else
    (initFunction fuel st.conf fn (pciRead st.conf fn 0)).map
      fun p => ⟨p.1, st.devices ++ [p.2]⟩

theorem enter_sameHeads (st : State) (fn : Fn) (st' : State) (hs : SameHeads c st.conf)
    (h : enter fuel st fn = some st') : SameHeads c st'.conf := by
  unfold enter at h
  split at h
  · obtain rfl := Option.some.inj h
    exact hs
  · obtain ⟨p, hp, rfl⟩ := Option.map_eq_some_iff.1 h
    refine hs.trans ?_
    rw [(initFunction_some hp).1]
    exact (onlyBars_probeFunction ..).sameHeads

/-- A full table stays as it is. -/
theorem foldlM_enter_full (h : maxPciDevices ≤ st.devices.length) (l : List Fn) :
    l.foldlM (enter fuel) st = some st := by
  induction l with
  | nil => rfl
  | cons fn l ih => rwa [List.foldlM_cons, enter, if_pos h]

/-- **The innermost loop.** Where it breaks off, nothing is left to enter. -/
theorem scanFuncs_eq (bus slot : UInt8) (funcs : List UInt8) (hs : SameHeads c st.conf) :
    scanFuncs fuel bus slot funcs st =
      ((funcs.map (Fn.mk bus slot)).filter (present c)).foldlM (enter fuel) st := by
  induction funcs generalizing st with
  | nil => rfl
  | cons func funcs ih =>
    rw [scanFuncs, List.map_cons, List.filter_cons]
    unfold present
    rw [(hs _).1]
    cases habs : absent (pciRead c ⟨bus, slot, func⟩ 0) with
    | true => exact ih hs
    | false =>
      rw [if_neg (by decide), Bool.not_false, if_pos rfl, List.foldlM_cons]
      by_cases hfull : maxPciDevices ≤ st.devices.length
      · rw [if_pos hfull, enter, if_pos hfull]
        exact (foldlM_enter_full hfull _).symm
      · rw [if_neg hfull]
        have hstep : ∀ st', enter fuel st ⟨bus, slot, func⟩ = some st' → SameHeads c st'.conf :=
          fun st' => enter_sameHeads st ⟨bus, slot, func⟩ st' hs
        unfold enter at hstep ⊢
        rw [if_neg hfull] at hstep ⊢
        rw [(hs _).1] at hstep ⊢
        cases hinit : initFunction fuel st.conf ⟨bus, slot, func⟩ (pciRead c ⟨bus, slot, func⟩ 0) with
        | none => rfl
        | some p =>
          rw [hinit] at hstep
          exact ih (hstep _ rfl)

theorem scanSlot_eq (bus slot : UInt8) (hs : SameHeads c st.conf) :
    scanSlot fuel bus slot st =
      (((upTo 8).map (Fn.mk bus slot)).filter (listed c)).foldlM (enter fuel) st := by
  have hzero : upTo 8 = 0 :: (upTo 7).map (· + 1) := by decide
  unfold scanSlot
  dsimp only
  rw [(hs _).1, (hs _).2]
  cases habs : absent (pciRead c ⟨bus, slot, 0⟩ 0) with
  | true =>
    have hnone : ((upTo 8).map (Fn.mk bus slot)).filter (listed c) = [] := by
      simp [List.filter_eq_nil_iff, listed, present, habs]
    rw [if_pos rfl, hnone]
    rfl
  | false =>
    rw [if_neg (by decide), scanFuncs_eq bus slot _ hs]
    congr 1
    by_cases hmulti : (pciRead c ⟨bus, slot, 0⟩ 0x0E >>> 16).toUInt8 &&& 0x80 ≠ 0
    · rw [if_pos hmulti]
      refine List.filter_congr fun fn hfn => ?_
      obtain ⟨func, -, rfl⟩ := List.mem_map.1 hfn
      simp [listed, present, multifunction, habs, hmulti]
    · rw [if_neg hmulti, hzero]
      -- without the bit, only function 0 is looked at
      have hrest : ((((upTo 7).map (· + 1)).map (Fn.mk bus slot)).filter (listed c)) = [] := by
        rw [List.filter_eq_nil_iff]
        intro fn hfn
        obtain ⟨func, hfunc, rfl⟩ := List.mem_map.1 hfn
        have hne : func ≠ 0 := by
          rintro rfl
          exact absurd hfunc (by decide)
        simpa [listed, multifunction, hne] using fun _ _ => hmulti
      rw [List.map_cons, List.filter_cons, hrest]
      simp [upTo, listed, present, habs]

/-- **The scan is one loop over what is listed.** -/
theorem pciInit_eq (fuel : ℕ) (c : Space) :
    pciInit fuel c = (inOrder c).foldlM (enter fuel) ⟨c, []⟩ := by
  have hstep : ∀ (st : State) (fn : Fn) (st' : State), SameHeads c st.conf →
      enter fuel st fn = some st' → SameHeads c st'.conf := enter_sameHeads
  have hbus : ∀ (st : State) (bus : UInt8), SameHeads c st.conf →
      (upTo 32).foldlM (fun st slot => scanSlot fuel bus slot st) st =
        ((upTo 32).flatMap fun slot =>
          ((upTo 8).map (Fn.mk bus slot)).filter (listed c)).foldlM (enter fuel) st :=
    fun st bus hs =>
      foldlM_flatMap_of_invariant hstep (fun st slot => scanSlot_eq bus slot) _ hs
  unfold pciInit
  rw [foldlM_flatMap_of_invariant hstep hbus _ fun fn => ⟨rfl, rfl⟩]
  simp only [inOrder, allFns, List.filter_flatMap]

/-! ## The table -/

/-- What a function by itself is entered as. -/
def entry (fuel : ℕ) (c : Space) (fn : Fn) : Option Device :=
  (initFunction fuel c fn (pciRead c fn 0)).map Prod.snd

/-- Configuration space after one function by itself has been entered. -/
def probed (c : Space) (fn : Fn) : Space := (probeFunction c fn (pciRead c fn 0)).1

theorem AgreeOn.entry {c' : Space} (h : AgreeOn fn c c') (fuel : ℕ) :
    entry fuel c' fn = entry fuel c fn := by
  unfold Pci.entry
  rw [h.2]
  exact h.initFunction ..

theorem AgreeOn.probed {c' : Space} (h : AgreeOn fn c c') :
    AgreeOn fn (probed c fn) (probed c' fn) := by
  unfold Pci.probed
  rw [h.2]
  exact (h.probeFunction _).2

/-- **One function entered**: its entry is what the function by itself
comes out as, and the other functions are as they were. -/
theorem enter_some (hroom : st.devices.length < maxPciDevices) (hfn : fn.OnBus)
    (hagree : AgreeOn fn c st.conf) (h : enter fuel st fn = some st') :
    ∃ d, entry fuel c fn = some d ∧ st'.devices = st.devices ++ [d] ∧
      AgreeOn fn (probed c fn) st'.conf ∧
      ∀ fn', fn'.OnBus → fn' ≠ fn → AgreeOn fn' st.conf st'.conf := by
  unfold enter at h
  rw [if_neg (by omega)] at h
  obtain ⟨p, hp, rfl⟩ := Option.map_eq_some_iff.1 h
  have hconf : p.1 = probed st.conf fn := (initFunction_some hp).1
  refine ⟨p.2, ?_, rfl, ?_, fun fn' hfn' hne => ?_⟩
  · rw [← hagree.entry fuel, entry, hp]
    rfl
  · dsimp only
    rw [hconf]
    exact hagree.probed
  · dsimp only
    rw [hconf]
    exact (onlyBars_probeFunction ..).agreeOn hfn hfn' hne

theorem enter_isSome (hagree : AgreeOn fn c st.conf) (h : (entry fuel c fn).isSome) :
    (enter fuel st fn).isSome := by
  unfold enter
  split
  · rfl
  · rw [← hagree.entry fuel, entry, Option.isSome_map] at h
    rwa [Option.isSome_map]

/-- **What the loop leaves**, if it comes to an end: as many entries as
there is room for, each that of its function, and every function as its
own entry has left it. -/
theorem foldlM_enter_some (hl : l.Pairwise Fn.Before) (hbus : ∀ fn ∈ l, fn.OnBus)
    (hagree : ∀ fn ∈ l, AgreeOn fn c st.conf) (h : l.foldlM (enter fuel) st = some st') :
    st'.devices.map some =
        st.devices.map some ++ (l.take (maxPciDevices - st.devices.length)).map (entry fuel c) ∧
      (∀ fn ∈ l.take (maxPciDevices - st.devices.length), AgreeOn fn (probed c fn) st'.conf) ∧
      ∀ fn, fn.OnBus → fn ∉ l.take (maxPciDevices - st.devices.length) →
        AgreeOn fn st.conf st'.conf := by
  induction l generalizing st with
  | nil =>
    obtain rfl := Option.some.inj h
    simpa using fun fn _ => AgreeOn.refl fn st.conf
  | cons fn l ih =>
    by_cases hfull : maxPciDevices ≤ st.devices.length
    · rw [foldlM_enter_full hfull] at h
      obtain rfl := Option.some.inj h
      simpa [Nat.sub_eq_zero_of_le hfull] using fun fn _ => AgreeOn.refl fn st.conf
    · rw [List.foldlM_cons] at h
      obtain ⟨mid, hmid, hrest⟩ := Option.bind_eq_some_iff.1 h
      obtain ⟨hfirst, hlater⟩ := List.pairwise_cons.1 hl
      have hfnbus := hbus fn List.mem_cons_self
      have hne : ∀ fn' ∈ l, fn' ≠ fn := fun fn' hfn' => (hfirst fn' hfn').ne.symm
      obtain ⟨d, hentry, hdev, hown, hothers⟩ :=
        enter_some (by omega) hfnbus (hagree fn List.mem_cons_self) hmid
      have hbus' : ∀ fn' ∈ l, fn'.OnBus := fun fn' h' => hbus fn' (List.mem_cons_of_mem fn h')
      obtain ⟨hdevices, hprobed, hframe⟩ := ih hlater hbus'
        (fun fn' h' => (hagree fn' (List.mem_cons_of_mem fn h')).trans
          (hothers fn' (hbus' fn' h') (hne fn' h'))) hrest
      -- one entry more is one place less
      have hroom : maxPciDevices - st.devices.length =
          maxPciDevices - mid.devices.length + 1 := by
        rw [hdev, List.length_append, List.length_singleton]
        omega
      rw [hroom, List.take_succ_cons]
      have hnot : fn ∉ l.take (maxPciDevices - mid.devices.length) :=
        fun h' => hne fn (List.mem_of_mem_take h') rfl
      refine ⟨?_, ?_, ?_⟩
      · rw [hdevices, hdev]
        simp [hentry]
      · intro fn' hfn'
        rcases List.mem_cons.1 hfn' with rfl | hfn'
        · exact hown.trans (hframe fn' hfnbus hnot)
        · exact hprobed fn' hfn'
      · intro fn' hfn'bus hfn'
        rw [List.mem_cons, not_or] at hfn'
        exact (hothers fn' hfn'bus hfn'.1).trans (hframe fn' hfn'bus hfn'.2)

/-- The loop comes to an end if the functions by themselves do. -/
theorem foldlM_enter_isSome (hl : l.Pairwise Fn.Before) (hbus : ∀ fn ∈ l, fn.OnBus)
    (hagree : ∀ fn ∈ l, AgreeOn fn c st.conf)
    (h : ∀ fn ∈ l.take (maxPciDevices - st.devices.length), (entry fuel c fn).isSome) :
    (l.foldlM (enter fuel) st).isSome := by
  induction l generalizing st with
  | nil => rfl
  | cons fn l ih =>
    by_cases hfull : maxPciDevices ≤ st.devices.length
    · rw [foldlM_enter_full hfull]
      rfl
    · have hroom : maxPciDevices - st.devices.length =
          maxPciDevices - (st.devices.length + 1) + 1 := by omega
      rw [hroom, List.take_succ_cons] at h
      obtain ⟨mid, hmid⟩ := Option.isSome_iff_exists.1
        (enter_isSome (hagree fn List.mem_cons_self) (h fn List.mem_cons_self))
      obtain ⟨hfirst, hlater⟩ := List.pairwise_cons.1 hl
      obtain ⟨d, -, hdev, -, hothers⟩ :=
        enter_some (by omega) (hbus fn List.mem_cons_self) (hagree fn List.mem_cons_self) hmid
      have hbus' : ∀ fn' ∈ l, fn'.OnBus := fun fn' h' => hbus fn' (List.mem_cons_of_mem fn h')
      rw [List.foldlM_cons, hmid]
      refine ih hlater hbus' (fun fn' h' => ?_) fun fn' h' => h fn' ?_
      · exact (hagree fn' (List.mem_cons_of_mem fn h')).trans
          (hothers fn' (hbus' fn' h') (hfirst fn' h').ne.symm)
      · rw [hdev, List.length_append, List.length_singleton] at h'
        exact List.mem_cons_of_mem fn h'

/-- **What the scan leaves.** -/
theorem pciInit_some (h : pciInit fuel c = some st) :
    st.devices.map some = (entered c).map (entry fuel c) ∧
      ∀ fn ∈ entered c, AgreeOn fn (probed c fn) st.conf := by
  rw [pciInit_eq] at h
  obtain ⟨hdevices, hprobed, -⟩ := foldlM_enter_some (pairwise_inOrder c)
    (fun fn hfn => (mem_inOrder.1 hfn).1) (fun fn _ => AgreeOn.refl fn c) h
  exact ⟨hdevices, hprobed⟩

/-- The entries of the table. -/
theorem mem_devices {d : Device} (h : pciInit fuel c = some st) :
    d ∈ st.devices ↔ ∃ fn ∈ entered c, entry fuel c fn = some d := by
  have hmem : some d ∈ st.devices.map some ↔ d ∈ st.devices := by simp
  rw [← hmem, (pciInit_some h).1, List.mem_map]

/-- **The scan comes to an end exactly if every function it enters does.** -/
theorem pciInit_isSome (fuel : ℕ) (c : Space) :
    (pciInit fuel c).isSome ↔ ∀ fn ∈ entered c, (entry fuel c fn).isSome := by
  constructor
  · intro h fn hfn
    obtain ⟨st, hst⟩ := Option.isSome_iff_exists.1 h
    have hmem : entry fuel c fn ∈ st.devices.map some := by
      rw [(pciInit_some hst).1]
      exact List.mem_map_of_mem hfn
    obtain ⟨d, -, hd⟩ := List.mem_map.1 hmem
    rw [← hd]
    rfl
  · intro h
    have hagree : ∀ fn ∈ inOrder c, AgreeOn fn c (State.mk c []).conf :=
      fun fn _ => AgreeOn.refl fn c
    rw [pciInit_eq]
    exact foldlM_enter_isSome (pairwise_inOrder c) (fun fn hfn => (mem_inOrder.1 hfn).1) hagree h

/-! ## A bus with one function -/

/-- The first function there is. -/
def Fn.first : Fn := ⟨0, 0, 0⟩

/-- The first function has these registers, and nothing else answers. -/
def alone (r : UInt8 → UInt32) (rule : UInt32 → UInt32 → UInt32 → UInt32) : Space where
  regs a := if a = configAddr .first a.toUInt8 then r a.toUInt8 else 0xFFFFFFFF
  rule := rule

variable {r : UInt8 → UInt32} {rule : UInt32 → UInt32 → UInt32 → UInt32}

theorem pciRead_alone (o : UInt8) : pciRead (alone r rule) .first o = r (o &&& 0xFC) := by
  have haddr : configAddr .first o = configAddr .first (configAddr .first o).toUInt8 := by
    rw [configAddr_toUInt8]
    unfold configAddr
    rw [UInt8.and_assoc, UInt8.and_self]
  unfold pciRead alone
  dsimp only
  rw [if_pos haddr, configAddr_toUInt8]

theorem listed_alone (hr : absent (r 0) = false) : Listed (alone r rule) fn ↔ fn = .first := by
  constructor
  · rintro ⟨hbus, -, hpresent, -⟩
    by_contra hne
    have haddr : configAddr fn 0 ≠ configAddr .first (configAddr fn 0).toUInt8 :=
      fun heq => hne (configAddr_inj hbus ⟨by decide, by decide⟩ heq)
    unfold present pciRead alone at hpresent
    dsimp only at hpresent
    rw [if_neg haddr] at hpresent
    exact absurd hpresent (by decide)
  · rintro rfl
    have hread : pciRead (alone r rule) .first 0 = r 0 := pciRead_alone 0
    have hpresent : present (alone r rule) .first := by
      unfold present
      rw [hread, hr]
      rfl
    exact ⟨⟨by decide, by decide⟩, hpresent, hpresent, Or.inl rfl⟩

/-- It is the one that is entered. -/
theorem entered_alone (hr : absent (r 0) = false) : entered (alone r rule) = [.first] := by
  have hmem : ∀ fn, fn ∈ [Fn.first] ↔ Listed (alone r rule) fn := fun fn =>
    List.mem_singleton.trans (listed_alone hr).symm
  rw [entered, inOrder_eq (List.pairwise_singleton _ _) hmem]
  rfl

/-- So the table has its entry, if its walk comes to an end. -/
theorem pciInit_alone {d : Device} (hr : absent (r 0) = false)
    (hd : entry fuel (alone r rule) .first = some d) :
    ∃ st, pciInit fuel (alone r rule) = some st ∧ st.devices = [d] := by
  have hsome : (pciInit fuel (alone r rule)).isSome := by
    rw [pciInit_isSome, entered_alone hr]
    intro fn hfn
    rw [List.mem_singleton.1 hfn, hd]
    rfl
  obtain ⟨st, hst⟩ := Option.isSome_iff_exists.1 hsome
  have hdevices := (pciInit_some hst).1
  rw [entered_alone hr, List.map_singleton, hd] at hdevices
  exact ⟨st, hst, List.map_injective_iff.2 (Option.some_injective _) hdevices⟩

/-! ## A bus with given functions -/

/-- These functions have these registers, and nothing else answers. -/
def populated (fs : List (Fn × (UInt8 → UInt32))) (rule : UInt32 → UInt32 → UInt32 → UInt32) :
    Space where
  regs a := ((fs.find? fun f => a == configAddr f.1 a.toUInt8).map fun f => f.2 a.toUInt8).getD
    0xFFFFFFFF
  rule := rule

variable {fs : List (Fn × (UInt8 → UInt32))}

theorem present_populated (hbus : fn.OnBus) (hfs : ∀ f ∈ fs, f.1.OnBus)
    (h : present (populated fs rule) fn) : fn ∈ fs.map Prod.fst := by
  cases hfind : fs.find? fun f =>
      configAddr fn 0 == configAddr f.1 (configAddr fn 0).toUInt8 with
  | none =>
    unfold present pciRead populated at h
    dsimp only at h
    rw [hfind, Option.map_none, Option.getD_none] at h
    exact absurd h (by decide)
  | some f =>
    have hin : f ∈ fs := List.mem_of_find?_eq_some hfind
    have haddr := List.find?_some hfind
    rw [beq_iff_eq] at haddr
    rw [configAddr_inj hbus (hfs f hin) haddr]
    exact List.mem_map_of_mem hin

/-- What is listed is found among them. -/
theorem inOrder_populated (hfs : ∀ f ∈ fs, f.1.OnBus) (hl : l.Pairwise Fn.Before)
    (hin : ∀ fn ∈ l, fn.OnBus ∧ listed (populated fs rule) fn)
    (hout : ∀ f ∈ fs, f.1 ∉ l → ¬ listed (populated fs rule) f.1) :
    inOrder (populated fs rule) = l := by
  have hlisted : ∀ fn, Listed (populated fs rule) fn ↔
      fn.OnBus ∧ listed (populated fs rule) fn := by
    intro fn
    simp [listed, Listed, and_assoc]
  refine inOrder_eq hl fun fn => ?_
  rw [hlisted]
  refine ⟨hin fn, fun ⟨hbus, hfn⟩ => ?_⟩
  have hpresent := ((hlisted fn).2 ⟨hbus, hfn⟩).2.2.1
  obtain ⟨f, hf, rfl⟩ := List.mem_map.1 (present_populated hbus hfs hpresent)
  by_contra hc
  exact hout f hf hc hfn

end Pci

end Kos
