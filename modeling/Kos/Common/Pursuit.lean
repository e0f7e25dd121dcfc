import Mathlib.Data.Fintype.EquivFin
import Mathlib.Logic.Relation
import Mathlib.Order.WellFounded
/-!
# Common — a pursuit of pointers

From an element one goes on to the next until one is reached where the
pursuit stops. It comes to an end exactly if it runs into no cycle, where
there are finitely many elements to run through.
-/

namespace Kos

variable {α : Type*}

/-- From `a`, where the pursuit does not stop, it goes on to `b`. -/
def Onward (next : α → α) (stop : α → Prop) (a b : α) : Prop := ¬ stop a ∧ b = next a

/-- **The pursuit from this element comes to an end.** -/
inductive Ends (next : α → α) (stop : α → Prop) : α → Prop
  | here {a : α} : stop a → Ends next stop a
  | onward {a : α} : ¬ stop a → Ends next stop (next a) → Ends next stop a

/-- No element the pursuit comes to leads back to itself. -/
def NoCycle (next : α → α) (stop : α → Prop) (a : α) : Prop :=
  ∀ b, Relation.ReflTransGen (Onward next stop) a b → ¬ Relation.TransGen (Onward next stop) b b

variable {next : α → α} {stop : α → Prop} {a b : α}

theorem Ends.of_reaches (h : Ends next stop a)
    (hab : Relation.ReflTransGen (Onward next stop) a b) : Ends next stop b := by
  induction hab with
  | refl => exact h
  | tail _ hstep ih =>
    obtain ⟨hgo, rfl⟩ := hstep
    cases ih with
    | here hstop => exact absurd hstop hgo
    | onward _ hrest => exact hrest

/-- A cycle is never left. -/
theorem Ends.not_cycle (h : Ends next stop a) : ¬ Relation.TransGen (Onward next stop) a a := by
  induction h with
  | here hstop =>
    intro hcyc
    obtain ⟨c, hstep, -⟩ := Relation.TransGen.head'_iff.1 hcyc
    exact hstep.1 hstop
  | onward hgo _ ih =>
    intro hcyc
    obtain ⟨c, hstep, hback⟩ := Relation.TransGen.head'_iff.1 hcyc
    obtain ⟨-, rfl⟩ := hstep
    -- the cycle can be entered one element further on
    exact ih (Relation.TransGen.tail' hback ⟨hgo, rfl⟩)

/-- **A pursuit ends exactly if it meets no cycle.** -/
theorem ends_iff_noCycle [Finite α] : Ends next stop a ↔ NoCycle next stop a := by
  constructor
  · exact fun h b hab => (h.of_reaches hab).not_cycle
  · intro h
    let Met := {b // Relation.ReflTransGen (Onward next stop) a b}
    let after : Met → Met → Prop := fun c b => Relation.TransGen (Onward next stop) b.1 c.1
    have : IsTrans Met after := ⟨fun _ _ _ hcb hba => hba.trans hcb⟩
    have : Std.Irrefl after := ⟨fun b => h b.1 b.2⟩
    have hwf : WellFounded after := Finite.wellFounded_of_trans_of_irrefl _
    have hall : ∀ b : Met, Ends next stop b.1 := by
      intro b
      induction b using hwf.induction with
      | _ b ih =>
        by_cases hstop : stop b.1
        · exact .here hstop
        · have hstep : Onward next stop b.1 (next b.1) := ⟨hstop, rfl⟩
          exact .onward hstop (ih ⟨next b.1, b.2.tail hstep⟩ (.single hstep))
    exact hall ⟨a, .refl⟩

end Kos
