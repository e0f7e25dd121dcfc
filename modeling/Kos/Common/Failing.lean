import Mathlib.Data.List.Basic
/-!
# Common — loops that may not come to an end

A loop whose body has a result only where it comes to an end is a fold in
`Option`. A fact that each turn keeps holds after the loop, and a loop
inside a loop is one loop, also where the inner one is only known in the
states the fact holds of.
-/

namespace Kos

variable {σ α β : Type*} {I : σ → Prop} {e : σ → β → Option σ} {f : σ → α → Option σ}
variable {g : α → List β} {s s' : σ}

/-- What every turn keeps holds after the loop. -/
theorem foldlM_invariant (he : ∀ s b s', I s → e s b = some s' → I s') {l : List β}
    (h : l.foldlM e s = some s') (hs : I s) : I s' := by
  induction l generalizing s with
  | nil =>
    obtain rfl : s = s' := Option.some.inj h
    exact hs
  | cons b l ih =>
    rw [List.foldlM_cons] at h
    obtain ⟨t, ht, hrest⟩ := Option.bind_eq_some_iff.1 h
    exact ih hrest (he s b t hs ht)

/-- **A loop of loops is one loop.** -/
theorem foldlM_flatMap_of_invariant (he : ∀ s b s', I s → e s b = some s' → I s')
    (hf : ∀ s a, I s → f s a = (g a).foldlM e s) (l : List α) (hs : I s) :
    l.foldlM f s = (l.flatMap g).foldlM e s := by
  induction l generalizing s with
  | nil => rfl
  | cons a l ih =>
    rw [List.foldlM_cons, List.flatMap_cons, List.foldlM_append, hf s a hs]
    cases ht : (g a).foldlM e s with
    | none => rfl
    | some t => exact ih (foldlM_invariant he ht hs)

end Kos
