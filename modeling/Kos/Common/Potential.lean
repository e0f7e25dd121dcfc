import Kos.Common.Run
import Mathlib.Algebra.BigOperators.Group.Finset.Basic
import Mathlib.Algebra.BigOperators.Group.List.Basic
import Mathlib.Algebra.GroupWithZero.Nat
import Mathlib.Data.List.Perm.Basic
import Mathlib.Order.Fin.Basic
/-!
# Common — what a potential bounds

A potential is a number that no step raises and that every costly step
lowers. A run has no more costly steps than the potential it begins
with. Where the potential is a sum over parts and pieces, a step that
changes one part and uses up one piece changes the sum by as much.
-/

namespace Kos

variable {σ α ι β : Type*} {step : σ → α → σ} {ok : σ → α → Prop}

/-- **A run has no more costly steps than the potential it starts with.** -/
theorem Allowed.countP_le {I : σ → Prop} {potential : σ → ℕ} {costs : α → Bool}
    (hinv : ∀ s a, I s → ok s a → I (step s a))
    (hstep : ∀ s a, I s → ok s a →
      potential (step s a) + (bif costs a then 1 else 0) ≤ potential s)
    {s : σ} {as : List α} (h : Allowed step ok s as) (hI : I s) :
    as.countP costs + potential (runFrom step s as) ≤ potential s := by
  induction as generalizing s with
  | nil => exact (Nat.zero_add _).le
  | cons a as ih =>
    have hrest := ih h.2 (hinv s a hI h.1)
    have hfirst := hstep s a hI h.1
    rw [List.countP_cons, runFrom_cons]
    cases hc : costs a with
    | false =>
      rw [hc, cond_false] at hfirst
      rw [if_neg Bool.false_ne_true]
      omega
    | true =>
      rw [hc, cond_true] at hfirst
      rw [if_pos rfl]
      omega

/-- One part of a sum is replaced. -/
theorem sum_update [Fintype ι] [DecidableEq ι] (f : ι → β) (g : β → ℕ) (i : ι) (b : β) :
    ∑ j, g (Function.update f i b j) + g (f i) = ∑ j, g (f j) + g b := by
  have hi : i ∈ Finset.univ := Finset.mem_univ i
  have hrest : ∑ j ∈ Finset.univ.erase i, g (Function.update f i b j) =
      ∑ j ∈ Finset.univ.erase i, g (f j) :=
    Finset.sum_congr rfl fun j hj => by rw [Function.update_of_ne (Finset.ne_of_mem_erase hj)]
  rw [← Finset.add_sum_erase _ _ hi, ← Finset.add_sum_erase _ (fun j => g (f j)) hi, hrest,
    Function.update_self]
  omega

/-- One piece of a list is used up. -/
theorem sum_eraseIdx {l : List β} {k : ℕ} {b : β} (hk : l[k]? = some b) (g : β → ℕ) :
    ((l.eraseIdx k).map g).sum + g b = (l.map g).sum := by
  obtain ⟨hlt, rfl⟩ := List.getElem?_eq_some_iff.1 hk
  rw [← ((List.getElem_cons_eraseIdx_perm hlt).map g).sum_eq, List.map_cons, List.sum_cons,
    Nat.add_comm]

end Kos
