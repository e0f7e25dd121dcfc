import Mathlib.Logic.Function.Basic
/-!
# Common — one at a time

Something is taken or free, and of the participants some are inside.
`Exclusive` is what a lock is for: it is taken exactly if somebody is
inside, and there is never a second. Entering where it is free keeps
this, and so does leaving, whatever the participants do otherwise.
-/

namespace Kos

variable {ι : Type*} {taken : Prop} {inside inside' : ι → Prop} {i : ι}

/-- **It is taken exactly if somebody is inside**, and there is only one. -/
structure Exclusive (taken : Prop) (inside : ι → Prop) : Prop where
  taken_iff : taken ↔ ∃ i, inside i
  unique : ∀ i j, inside i → inside j → i = j

theorem Exclusive.none (h : Exclusive taken inside) (hfree : ¬ taken) (i : ι) : ¬ inside i :=
  fun hi => hfree (h.taken_iff.2 ⟨i, hi⟩)

theorem exclusive_start (hout : ∀ i, ¬ inside i) : Exclusive False inside :=
  ⟨iff_of_false id fun ⟨i, hi⟩ => hout i hi, fun i _ hi => absurd hi (hout i)⟩

/-- Those outside move about. -/
theorem Exclusive.congr (h : Exclusive taken inside) (hsame : ∀ j, inside' j ↔ inside j) :
    Exclusive taken inside' :=
  ⟨h.taken_iff.trans (exists_congr fun j => (hsame j).symm),
    fun i j hi hj => h.unique i j ((hsame i).1 hi) ((hsame j).1 hj)⟩

/-- **One enters where it is free.** -/
theorem Exclusive.enter (h : Exclusive taken inside) (hfree : ¬ taken)
    (hi : ∀ j, inside' j ↔ j = i ∨ inside j) : Exclusive True inside' := by
  have honly : ∀ j, inside' j → j = i := fun j hj =>
    ((hi j).1 hj).resolve_right (h.none hfree j)
  exact ⟨iff_of_true trivial ⟨i, (hi i).2 (Or.inl rfl)⟩,
    fun j k hj hk => (honly j hj).trans (honly k hk).symm⟩

/-- **The one inside leaves.** -/
theorem Exclusive.leave (h : Exclusive taken inside) (hin : inside i)
    (hi : ∀ j, inside' j ↔ j ≠ i ∧ inside j) : Exclusive False inside' :=
  exclusive_start fun j hj => ((hi j).1 hj).1 (h.unique j i ((hi j).1 hj).2 hin)

end Kos
