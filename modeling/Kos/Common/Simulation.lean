import Kos.Common.Run
/-!
# Common — one system that simulates another

Two systems that take the same actions stay in step if each action keeps
their states related. Where they take different ones, each step of one
system is matched by a run of the other, and what is counted of the first
is counted of the second at least as often. Then the same is true of
whole runs, and a bound for the second system is one for the first.
-/

namespace Kos

variable {σ τ α β : Type*} {step : σ → α → σ} {ok : σ → α → Prop} {step' : τ → β → τ}
  {ok' : τ → β → Prop}

/-- **Two systems in step**: where related states permit what the other
permits and a step keeps them related, a run of the one is a run of the
other. -/
theorem Allowed.related {step' : τ → α → τ} {ok' : τ → α → Prop} {R : σ → τ → Prop}
    (hok : ∀ s t a, R s t → ok s a → ok' t a) (hstep : ∀ s t a, R s t → R (step s a) (step' t a))
    {s : σ} {t : τ} {as : List α} (h : Allowed step ok s as) (hR : R s t) :
    Allowed step' ok' t as ∧ R (runFrom step s as) (runFrom step' t as) := by
  induction as generalizing s t with
  | nil => exact ⟨trivial, hR⟩
  | cons a as ih =>
    obtain ⟨hrest, hend⟩ := ih h.2 (hstep s t a hR)
    exact ⟨⟨hok s t a hR h.1, hrest⟩, hend⟩

/-- **A step is matched by a run**: it ends in related states, and counts
the step if that is to be counted. -/
structure Matches (step' : τ → β → τ) (ok' : τ → β → Prop) (R : σ → τ → Prop) (counts' : β → Bool)
    (s : σ) (n : ℕ) (t : τ) (bs : List β) : Prop where
  allowed : Allowed step' ok' t bs
  related : R s (runFrom step' t bs)
  counted : n ≤ bs.countP counts'

variable {R : σ → τ → Prop} {counts' : β → Bool} {s : σ} {t : τ}

theorem Matches.refl (h : R s t) : Matches step' ok' R counts' s 0 t [] :=
  ⟨trivial, h, Nat.zero_le _⟩

/-- A first step before a run that matches. -/
theorem Matches.cons {b : β} {bs : List β} {n : ℕ} (hok : ok' t b)
    (h : Matches step' ok' R counts' s n (step' t b) bs) :
    Matches step' ok' R counts' s (n + bif counts' b then 1 else 0) t (b :: bs) := by
  refine ⟨⟨hok, h.allowed⟩, h.related, ?_⟩
  have hcount := h.counted
  rw [List.countP_cons]
  cases counts' b
  · exact hcount
  · exact Nat.add_le_add_right hcount 1

/-- Runs that match are put together. -/
theorem Matches.append {bs cs : List β} {n m : ℕ} {s' : σ}
    (h : Matches step' ok' R counts' s n t bs)
    (h' : Matches step' ok' R counts' s' m (runFrom step' t bs) cs) :
    Matches step' ok' R counts' s' (n + m) t (bs ++ cs) := by
  refine ⟨Allowed.append.2 ⟨h.allowed, h'.allowed⟩, ?_, ?_⟩
  · rw [runFrom_append]
    exact h'.related
  · rw [List.countP_append]
    exact Nat.add_le_add h.counted h'.counted

/-- **Runs are matched where steps are.** -/
theorem Allowed.matches {counts : α → Bool}
    (hstep : ∀ s t a, R s t → ok s a →
      ∃ bs, Matches step' ok' R counts' (step s a) (bif counts a then 1 else 0) t bs)
    {as : List α} (h : Allowed step ok s as) (hR : R s t) :
    ∃ bs, Matches step' ok' R counts' (runFrom step s as) (as.countP counts) t bs := by
  induction as generalizing s t with
  | nil => exact ⟨[], .refl hR⟩
  | cons a as ih =>
    obtain ⟨bs, hbs⟩ := hstep s t a hR h.1
    obtain ⟨cs, hcs⟩ := ih h.2 hbs.related
    refine ⟨bs ++ cs, ?_⟩
    have hcount : (a :: as).countP counts = (bif counts a then 1 else 0) + as.countP counts := by
      rw [List.countP_cons, Nat.add_comm]
      cases counts a <;> rfl
    rw [hcount, runFrom_cons]
    exact hbs.append hcs

end Kos
