import Mathlib.Data.List.Basic
/-!
# Common — runs of a step function

A system is a step function on its states, and a run is a list of
actions taken in order. `Allowed` says of a run that every action was
taken in a state that permits it; an invariant kept by permitted steps
holds at the end of every allowed run. Since a prefix of an allowed run
is allowed, it holds in every state the run passes through.
-/

namespace Kos

variable {σ α : Type*}

/-- The state a run ends in. -/
def runFrom (step : σ → α → σ) (s : σ) (as : List α) : σ := as.foldl step s

@[simp] theorem runFrom_nil (step : σ → α → σ) (s : σ) : runFrom step s [] = s := rfl

@[simp] theorem runFrom_cons (step : σ → α → σ) (s : σ) (a : α) (as : List α) :
    runFrom step s (a :: as) = runFrom step (step s a) as := rfl

theorem runFrom_append (step : σ → α → σ) (s : σ) (as bs : List α) :
    runFrom step s (as ++ bs) = runFrom step (runFrom step s as) bs :=
  List.foldl_append

/-- **Every action of the run is permitted where it is taken.** -/
def Allowed (step : σ → α → σ) (ok : σ → α → Prop) : σ → List α → Prop
  | _, [] => True
  | s, a :: as => ok s a ∧ Allowed step ok (step s a) as

instance Allowed.decidable (step : σ → α → σ) (ok : σ → α → Prop)
    [∀ s a, Decidable (ok s a)] : ∀ s as, Decidable (Allowed step ok s as)
  | _, [] => isTrue trivial
  | s, a :: as => @instDecidableAnd _ _ _ (Allowed.decidable step ok (step s a) as)

variable {step : σ → α → σ} {ok : σ → α → Prop}

theorem Allowed.append {s : σ} {as bs : List α} :
    Allowed step ok s (as ++ bs) ↔
      Allowed step ok s as ∧ Allowed step ok (runFrom step s as) bs := by
  induction as generalizing s with
  | nil => simp [Allowed]
  | cons a as ih => simp [Allowed, ih, and_assoc]

theorem Allowed.take {s : σ} {as : List α} (h : Allowed step ok s as) (n : ℕ) :
    Allowed step ok s (as.take n) := by
  rw [← List.take_append_drop n as, Allowed.append] at h
  exact h.1

/-- **What permitted steps keep holds after every allowed run.** -/
theorem Allowed.invariant {P : σ → Prop}
    (hstep : ∀ s a, P s → ok s a → P (step s a)) {s : σ} {as : List α}
    (h : Allowed step ok s as) (hs : P s) : P (runFrom step s as) := by
  induction as generalizing s with
  | nil => exact hs
  | cons a as ih => exact ih h.2 (hstep s a hs h.1)

/-- **Where a step keeps a fact exactly if it is good**, a run is good all
along exactly if the fact holds in every state it passes through. The
steps are those that are permitted, and keep an invariant of their own. -/
theorem Allowed.iff_forall_take {I P : σ → Prop} {good : σ → α → Prop}
    (hinv : ∀ s a, I s → ok s a → I (step s a))
    (hstep : ∀ s a, I s → ok s a → P s → (P (step s a) ↔ good s a))
    {s : σ} {as : List α} (h : Allowed step ok s as) (hI : I s) (hs : P s) :
    Allowed step good s as ↔ ∀ n, P (runFrom step s (as.take n)) := by
  induction as generalizing s with
  | nil => exact ⟨fun _ n => by rwa [List.take_nil], fun _ => trivial⟩
  | cons a as ih =>
    have hiff := hstep s a hI h.1 hs
    have hrest := ih h.2 (hinv s a hI h.1)
    constructor
    · rintro ⟨hgood, hall⟩ n
      cases n with
      | zero => exact hs
      | succ n => exact (hrest (hiff.2 hgood)).1 hall n
    · intro hall
      have hfirst : P (step s a) := hall 1
      exact ⟨hiff.1 hfirst, (hrest hfirst).2 fun n => hall (n + 1)⟩

theorem Allowed.and {good : σ → α → Prop} {s : σ} {as : List α} (h : Allowed step ok s as)
    (h' : Allowed step good s as) : Allowed step (fun s a => ok s a ∧ good s a) s as := by
  induction as generalizing s with
  | nil => trivial
  | cons a as ih => exact ⟨⟨h.1, h'.1⟩, ih h.2 h'.2⟩

theorem Allowed.mono {good : σ → α → Prop} (himp : ∀ s a, ok s a → good s a) {s : σ} {as : List α}
    (h : Allowed step ok s as) : Allowed step good s as := by
  induction as generalizing s with
  | nil => trivial
  | cons a as ih => exact ⟨himp s a h.1, ih h.2⟩

/-- A run of actions that are permitted everywhere. -/
theorem allowed_of_forall (step : σ → α → σ) {good : α → Prop} (s : σ) {as : List α}
    (h : ∀ a ∈ as, good a) : Allowed step (fun _ => good) s as := by
  induction as generalizing s with
  | nil => trivial
  | cons a as ih =>
    exact ⟨h a List.mem_cons_self, ih (step s a) fun b hb => h b (List.mem_cons_of_mem a hb)⟩

/-- A run of a system that carries more along is a run of the system. -/
theorem allowed_comap {τ : Type*} {step' : τ → α → τ} (f : τ → σ) (perm : σ → α → Prop)
    (hf : ∀ x a, f (step' x a) = step (f x) a) {x : τ} {as : List α} :
    Allowed step' (fun x a => perm (f x) a) x as ↔ Allowed step perm (f x) as := by
  induction as generalizing x with
  | nil => exact Iff.rfl
  | cons a as ih =>
    rw [Allowed, Allowed, ← hf, ih]

/-- **Two permissions that agree** where an invariant holds permit the
same runs. The invariant is kept by the steps they permit. -/
theorem Allowed.congr {I : σ → Prop} {good good' : σ → α → Prop}
    (hinv : ∀ s a, I s → ok s a → good s a → I (step s a))
    (hiff : ∀ s a, I s → ok s a → (good s a ↔ good' s a))
    {s : σ} {as : List α} (h : Allowed step ok s as) (hI : I s) :
    Allowed step good s as ↔ Allowed step good' s as := by
  induction as generalizing s with
  | nil => exact Iff.rfl
  | cons a as ih =>
    have hfirst := hiff s a hI h.1
    constructor
    · rintro ⟨hgood, hall⟩
      exact ⟨hfirst.1 hgood, (ih h.2 (hinv s a hI h.1 hgood)).1 hall⟩
    · rintro ⟨hgood, hall⟩
      exact ⟨hfirst.2 hgood, (ih h.2 (hinv s a hI h.1 (hfirst.2 hgood))).2 hall⟩

theorem allowed_true (step : σ → α → σ) (s : σ) (as : List α) :
    Allowed step (fun _ _ => True) s as := by
  induction as generalizing s with
  | nil => trivial
  | cons a as ih => exact ⟨trivial, ih (step s a)⟩

/-- The rule where every step is permitted. -/
theorem allowed_iff_forall_take {P : σ → Prop} (hstep : ∀ s a, P s → (P (step s a) ↔ ok s a))
    {s : σ} {as : List α} (hs : P s) :
    Allowed step ok s as ↔ ∀ n, P (runFrom step s (as.take n)) :=
  (allowed_true step s as).iff_forall_take (I := fun _ => True) (fun _ _ _ _ => trivial)
    (fun s a _ _ => hstep s a) trivial hs

/-- The rule for steps that need no permission. -/
theorem runFrom_invariant {P : σ → Prop} (hstep : ∀ s a, P s → P (step s a))
    {s : σ} (as : List α) (hs : P s) : P (runFrom step s as) := by
  induction as generalizing s with
  | nil => exact hs
  | cons a as ih => exact ih (hstep s a hs)

/-- **Folding with a history.** If each step carries a fact about the
elements consumed so far over to one more, the fold carries it to the
whole list. The step may use where in the list it stands. -/
theorem foldl_history {P : List α → σ → Prop} {f : σ → α → σ} {l d : List α} {s : σ}
    (hstep : ∀ d' a r t, d ++ l = d' ++ a :: r → P d' t → P (d' ++ [a]) (f t a)) (hs : P d s) :
    P (d ++ l) (l.foldl f s) := by
  induction l generalizing d s with
  | nil => simpa using hs
  | cons a l ih =>
    rw [List.foldl_cons, List.append_cons]
    refine ih ?_ (hstep d a l s rfl hs)
    intro d' b r t heq
    exact hstep d' b r t (by rw [← heq, List.append_cons])

end Kos
