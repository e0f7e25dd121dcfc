import Mathlib.Logic.Basic
/-!
# Common — one use for everything that is handed out

Things are handed out of a stock, and a system puts them to use.
`SoleUse` says that nothing has two uses and that what is in use is not
in stock. A step keeps this if every use it adds is of something it took
out of the stock, and it puts that to one use only. What a step gives up
need not be looked at, and nothing has to come back.
-/

namespace Kos

variable {α ω : Type*} {uses uses' : α → ω → Prop} {stock stock' : α → Prop}

/-- **Nothing has two uses, and nothing in use is in stock.** -/
structure SoleUse (uses : α → ω → Prop) (stock : α → Prop) : Prop where
  one : ∀ a o o', uses a o → uses a o' → o = o'
  taken : ∀ a o, uses a o → ¬ stock a

/-- **A step that puts to use what it takes out of the stock.** -/
theorem SoleUse.step (h : SoleUse uses stock) (hstock : ∀ a, stock' a → stock a)
    (huses : ∀ a o, uses' a o → uses a o ∨ stock a ∧ ¬ stock' a)
    (hone : ∀ a o o', stock a → uses' a o → uses' a o' → o = o') : SoleUse uses' stock' where
  one a o o' ho ho' := by
    obtain hold | ⟨hfree, -⟩ := huses a o ho
    · obtain hold' | ⟨hfree', -⟩ := huses a o' ho'
      · exact h.one a o o' hold hold'
      · exact hone a o o' hfree' ho ho'
    · exact hone a o o' hfree ho ho'
  taken a o ho := by
    obtain hold | ⟨-, hgone⟩ := huses a o ho
    · exact fun hc => h.taken a o hold (hstock a hc)
    · exact hgone

/-- A step whose new uses are all one. -/
theorem SoleUse.step_one (h : SoleUse uses stock) {new : ω} (hstock : ∀ a, stock' a → stock a)
    (huses : ∀ a o, uses' a o → uses a o ∨ o = new ∧ stock a ∧ ¬ stock' a) :
    SoleUse uses' stock' := by
  refine h.step hstock (fun a o ho => (huses a o ho).imp_right And.right) ?_
  intro a o o' hfree ho ho'
  have hnew := (huses a o ho).resolve_left fun hc => h.taken a o hc hfree
  have hnew' := (huses a o' ho').resolve_left fun hc => h.taken a o' hc hfree
  exact hnew.1.trans hnew'.1.symm

/-- A step that only gives up. -/
theorem SoleUse.mono (h : SoleUse uses stock) (hstock : ∀ a, stock' a → stock a)
    (huses : ∀ a o, uses' a o → uses a o) : SoleUse uses' stock' :=
  h.step hstock (fun a o ho => Or.inl (huses a o ho)) fun a o _ hfree ho _ =>
    absurd hfree (h.taken a o (huses a o ho))

end Kos
