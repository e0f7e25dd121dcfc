import Kos.Common.Pursuit
import Kos.Pci.Table
/-!
# Pci — the capability walk

Each capability holds the offset of the next, and the walk goes on until
it reads a zero. It keeps no count and no record of where it has been:
where a pointer leads back to a capability it has come from, it does not
end.
-/

namespace Kos

namespace Pci

variable {c : Space} {fn : Fn}

/-- There are 256 offsets. -/
instance finite_uint8 : Finite UInt8 :=
  Finite.of_injective UInt8.toFin fun _ _ h => UInt8.toFin_inj.1 h

/-- The offset of the first capability. -/
def firstCap (c : Space) (fn : Fn) : UInt8 := (pciRead c fn 0x34).toUInt8

/-- The offset that the capability at `p` holds of the next. -/
def nextCap (c : Space) (fn : Fn) (p : UInt8) : UInt8 := (pciRead c fn p >>> 8).toUInt8

/-- **The walk from `p` ends where the pursuit of the pointers does.** -/
theorem capWalk_isSome_iff {p : UInt8} {d : Device} :
    (∃ n, (capWalk c fn n p d).isSome) ↔ Ends (nextCap c fn) (· = 0) p := by
  constructor
  · rintro ⟨n, hn⟩
    induction n generalizing p d with
    | zero => cases hn
    | succ n ih =>
      rw [capWalk] at hn
      by_cases hp : p = 0
      · exact .here hp
      · rw [if_neg hp] at hn
        dsimp only at hn
        refine .onward hp ?_
        by_cases hnext : nextCap c fn p = 0
        · exact .here hnext
        · unfold nextCap at hnext
          rw [if_neg hnext] at hn
          exact ih hn
  · intro h
    induction h generalizing d with
    | here hp => exact ⟨1, by rw [capWalk, if_pos hp]; rfl⟩
    | @onward p hp _ ih =>
      obtain ⟨n, hn⟩ := @ih (if (pciRead c fn p).toUInt8 = 0x05
        then { d with msiCapable := true, msiOffset := p } else d)
      refine ⟨n + 1, ?_⟩
      rw [capWalk, if_neg hp]
      dsimp only
      split
      · rfl
      · exact hn

/-! ## Sizing puts the registers back -/

/-- **A base address register takes back what was read from it**, after all
ones have been written to it. Storage does, and so does a register with
bits that are not for writing. -/
def Restores (c : Space) (fn : Fn) : Prop :=
  ∀ i < 6, c.rule (configAddr fn (barOffset i))
    (c.rule (configAddr fn (barOffset i)) (pciRead c fn (barOffset i)) 0xFFFFFFFF)
      (pciRead c fn (barOffset i)) = pciRead c fn (barOffset i)

theorem restores_plain {c : Space} (h : c.rule = plain) (fn : Fn) : Restores c fn := by
  intro i _
  rw [h]
  rfl

theorem Restores.sizedUp (h : Restores c fn) {i : ℕ} (hi : i < 6) : sizedUp fn i c = c := by
  unfold Pci.sizedUp pciWrite
  dsimp only
  rw [Function.update_self, Function.update_idem]
  have hback := h i hi
  unfold pciRead at hback ⊢
  rw [hback, Function.update_eq_self]

theorem Restores.probeBars (h : Restores c fn) (n i : ℕ) (d : Device) :
    (probeBars fn n i c d).1 = c := by
  induction n generalizing i d with
  | zero => rfl
  | succ n ih =>
    rw [Pci.probeBars]
    split
    · next hi =>
      have hstep : (probeBar fn i c d).1 = c := by rw [probeBar_conf, h.sizedUp hi]
      dsimp only
      rw [hstep]
      exact ih ..
    · rfl

theorem Restores.probed (h : Restores c fn) : probed c fn = c := h.probeBars ..

/-! ## The walks of a scan -/

/-- **The walk of a function ends exactly if its pointers make no cycle.** -/
theorem walkEnds_iff (h : Restores c fn) :
    WalkEnds c fn ↔ NoCycle (nextCap c fn) (· = 0) (firstCap c fn) := by
  have hconf : (probeFunction c fn (pciRead c fn 0)).1 = c := h.probed
  have hwalk : ∀ n, (entry n c fn).isSome ↔ (capWalk c fn n (firstCap c fn)
      { (probeFunction c fn (pciRead c fn 0)).2 with msiCapable := false }).isSome := by
    intro n
    unfold entry initFunction
    dsimp only
    rw [hconf, Option.isSome_map, Option.isSome_map]
    rfl
  rw [← ends_iff_noCycle, ← capWalk_isSome_iff]
  exact exists_congr hwalk

/-- **`pci_init` returns exactly if the pointers of no function that it
enters make a cycle.** -/
theorem pciInit_returns_iff (c : Space) (h : ∀ fn ∈ entered c, Restores c fn) :
    (∃ fuel, (pciInit fuel c).isSome) ↔
      ∀ fn ∈ entered c, NoCycle (nextCap c fn) (· = 0) (firstCap c fn) := by
  constructor
  · rintro ⟨fuel, hfuel⟩ fn hfn
    exact (walkEnds_iff (h fn hfn)).1 ⟨fuel, (pciInit_isSome fuel c).1 hfuel fn hfn⟩
  · intro hcyc
    obtain ⟨n, hn⟩ := exists_fuel fun fn hfn => (walkEnds_iff (h fn hfn)).2 (hcyc fn hfn)
    exact ⟨n, (pciInit_isSome n c).2 (hn n (le_refl n))⟩

/-- A controller with two capabilities, the second of them for MSI. -/
def twoCaps (o : UInt8) : UInt32 :=
  if o = 0x00 then 0x100E8086 else if o = 0x34 then 0x40
  else if o = 0x40 then 0x5001 else if o = 0x50 then 0x0005 else 0

theorem pciInit_returns_iff_twoCaps : ∃ fuel, (pciInit fuel (alone twoCaps plain)).isSome := by
  have hthere : absent (twoCaps 0) = false := by decide
  refine (pciInit_returns_iff _ fun fn _ => restores_plain rfl fn).2 fun fn hfn => ?_
  rw [entered_alone hthere, List.mem_singleton] at hfn
  rw [hfn, ← ends_iff_noCycle]
  exact .onward (by decide) (.onward (by decide) (.here (by decide)))

/-- A controller whose only capability holds its own offset. -/
def selfLinked (o : UInt8) : UInt32 :=
  if o = 0x00 then 0x100E8086 else if o = 0x34 then 0x40 else if o = 0x40 then 0x4005 else 0

/-- **Where such a controller is on the bus, `pci_init` does not return.** -/
theorem pciInit_selfLinked : ¬ ∃ fuel, (pciInit fuel (alone selfLinked plain)).isSome := by
  have hthere : absent (selfLinked 0) = false := by decide
  have hmem : Fn.first ∈ entered (alone selfLinked plain) := by
    rw [entered_alone hthere]
    exact List.mem_singleton_self _
  have hself : Onward (nextCap (alone selfLinked plain) .first) (· = 0) 0x40 0x40 :=
    ⟨by decide, by decide⟩
  have hstart : firstCap (alone selfLinked plain) .first = 0x40 := by decide
  rintro ⟨fuel, hfuel⟩
  have hends : WalkEnds (alone selfLinked plain) .first :=
    ⟨fuel, (pciInit_isSome fuel _).1 hfuel _ hmem⟩
  have hno := (walkEnds_iff (restores_plain rfl .first)).1 hends
  rw [hstart] at hno
  exact hno 0x40 .refl (.single hself)

end Pci

end Kos
