import Kos.Common.Exclusive
import Kos.Common.Run
/-!
# Spinlock — `spin_lock` and `spin_unlock`, as `kernel.h` writes them

Processors run in any interleaving, one access to memory at a time. One
that wants the lock exchanges the word with 1; where it was taken, it
polls the word until it reads 0 and tries again. Between the two calls
it takes the steps of a section, which read and write data behind the
lock. Whatever the interleaving, at most one processor is in a section,
the data is what the sections leave when they are run one after the
other, and nobody who waits is shut out.
-/

namespace Kos

namespace Spinlock

/-- The accesses of a section, in order. -/
abbrev Section (δ : Type*) : Type _ := List (δ → δ)

/-- Run all of a section. -/
def runAll {δ : Type*} (sec : Section δ) (d : δ) : δ := sec.foldl (fun d f => f d) d

/-- Where a processor is: outside, at `__sync_lock_test_and_set`, in the
inner loop, or behind the lock with what is left of its section. -/
inductive Phase (δ : Type*)
  | out
  | exchange (sec : Section δ)
  | poll (sec : Section δ)
  | inside (rest : Section δ)

/-- The lock, the data behind it, the processors, and the sections that
were begun, oldest first. -/
structure Machine (ι δ : Type*) where
  lock : UInt32
  data : δ
  phase : ι → Phase δ
  begun : List (Section δ)

variable {ι δ : Type*} [DecidableEq ι] {m : Machine ι δ} {i j : ι}

/-- `spin_init`. -/
def spinInit (d : δ) : Machine ι δ where
  lock := 0
  data := d
  phase := fun _ => .out
  begun := []

/-- A processor goes on to another place. -/
def Machine.goto (m : Machine ι δ) (i : ι) (p : Phase δ) : Machine ι δ :=
  { m with phase := Function.update m.phase i p }

/-- What happens: a processor outside calls `spin_lock`, or a processor
makes its next access. -/
inductive Act (ι δ : Type*)
  | call (i : ι) (sec : Section δ)
  | access (i : ι)

/-- The next access of a processor. -/
def Machine.access (m : Machine ι δ) (i : ι) : Machine ι δ :=
  match m.phase i with
  | .out => m
  | .exchange sec =>
    -- the exchange reads and writes the word at once
    let old := m.lock
    let m := { m with lock := 1 }
    if old ≠ 0 then m.goto i (.poll sec)
    else { m.goto i (.inside sec) with begun := m.begun ++ [sec] }
  | .poll sec => if m.lock ≠ 0 then m else m.goto i (.exchange sec)
  | .inside (f :: rest) => { m.goto i (.inside rest) with data := f m.data }
  | .inside [] => { m.goto i .out with lock := 0 }

/-- One step. -/
def Machine.step (m : Machine ι δ) : Act ι δ → Machine ι δ
  | .call i sec =>
    match m.phase i with
    | .out => m.goto i (.exchange sec)
    | _ => m
  | .access i => m.access i

/-- Behind the lock. -/
def Phase.Inside (p : Phase δ) : Prop := ∃ rest, p = .inside rest

/-- The data when the sections have been run in order. -/
def serial (begun : List (Section δ)) (d : δ) : δ := begun.foldl (fun d sec => runAll sec d) d

/-- **The invariant**: the lock is exclusive, and the data is what running
the sections in order leaves, as soon as the one inside has finished. -/
structure Inv (d : δ) (m : Machine ι δ) : Prop where
  exclusive : Exclusive (m.lock ≠ 0) fun i => (m.phase i).Inside
  finishing : ∀ i rest, m.phase i = .inside rest → runAll rest m.data = serial m.begun d
  finished : m.lock = 0 → m.data = serial m.begun d

omit [DecidableEq ι] in
theorem inv_spinInit (d : δ) : Inv d (spinInit d : Machine ι δ) where
  exclusive := by
    have hstart : Exclusive False fun i => ((spinInit d : Machine ι δ).phase i).Inside :=
      exclusive_start fun i ⟨rest, hc⟩ => by cases hc
    exact ⟨iff_of_false (fun h => h rfl) fun ⟨i, hi⟩ => (hstart.none id) i hi, hstart.unique⟩
  finishing i rest h := by cases h
  finished _ := rfl

/-! ## One access -/

theorem goto_phase (m : Machine ι δ) (i j : ι) (p : Phase δ) :
    (m.goto i p).phase j = if j = i then p else m.phase j :=
  Function.update_apply ..

/-- A processor that stays on its side of the lock. -/
theorem Inv.goto {d : δ} {p : Phase δ} (h : Inv d m) (hp : ¬ p.Inside) (hi : ¬ (m.phase i).Inside) :
    Inv d (m.goto i p) := by
  have hsame : ∀ j, ((m.goto i p).phase j).Inside ↔ (m.phase j).Inside := by
    intro j
    rw [goto_phase]
    split
    · rename_i hj
      exact iff_of_false hp (hj ▸ hi)
    · exact Iff.rfl
  refine ⟨h.exclusive.congr hsame, fun j rest hj => ?_, h.finished⟩
  rw [goto_phase] at hj
  split at hj
  · exact absurd ⟨rest, hj⟩ hp
  · exact h.finishing j rest hj

/-- **Taking the lock** begins a section. -/
theorem Inv.take {d : δ} {sec : Section δ} (h : Inv d m) (hfree : m.lock = 0) :
    Inv d { m.goto i (.inside sec) with lock := 1, begun := m.begun ++ [sec] } := by
  have hinside : ∀ j, ((m.goto i (.inside sec)).phase j).Inside ↔ j = i ∨ (m.phase j).Inside := by
    intro j
    rw [goto_phase]
    split
    · rename_i hj
      exact iff_of_true ⟨sec, rfl⟩ (Or.inl hj)
    · rename_i hj
      exact (or_iff_right hj).symm
  have htaken := h.exclusive.enter (fun hc => hc hfree) hinside
  have hone : (1 : UInt32) ≠ 0 := by decide
  refine ⟨⟨iff_of_true hone (htaken.taken_iff.1 trivial), htaken.unique⟩, fun j rest hj => ?_,
    fun hc => absurd hc hone⟩
  obtain rfl : j = i := htaken.unique j i ⟨rest, hj⟩ ((hinside i).2 (Or.inl rfl))
  have hrest : sec = rest := by
    change (m.goto j (.inside sec)).phase j = _ at hj
    rw [goto_phase, if_pos rfl] at hj
    exact Phase.inside.inj hj
  rw [← hrest, serial, List.foldl_append, List.foldl_cons, List.foldl_nil]
  exact congrArg (runAll sec) (h.finished hfree)

/-- A step of the section is a step towards its end. -/
theorem Inv.work {d : δ} {f : δ → δ} {rest : Section δ} (h : Inv d m)
    (hi : m.phase i = .inside (f :: rest)) :
    Inv d { m.goto i (.inside rest) with data := f m.data } := by
  have hsame : ∀ j, ((m.goto i (.inside rest)).phase j).Inside ↔ (m.phase j).Inside := by
    intro j
    rw [goto_phase]
    split
    · rename_i hj
      exact iff_of_true ⟨rest, rfl⟩ (hj ▸ ⟨_, hi⟩)
    · exact Iff.rfl
  have hin : (m.phase i).Inside := ⟨_, hi⟩
  refine ⟨h.exclusive.congr hsame, fun j rest' hj => ?_, fun hfree => ?_⟩
  · obtain rfl : j = i := h.exclusive.unique j i ((hsame j).1 ⟨rest', hj⟩) hin
    change (m.goto j (.inside rest)).phase j = _ at hj
    rw [goto_phase, if_pos rfl] at hj
    rw [← Phase.inside.inj hj]
    exact h.finishing j (f :: rest) hi
  · exact absurd hin (h.exclusive.none (fun hc => hc hfree) i)

/-- **Leaving the lock** ends a section. -/
theorem Inv.leave {d : δ} (h : Inv d m) (hi : m.phase i = .inside []) :
    Inv d { m.goto i .out with lock := 0 } := by
  have hinside : ∀ j, ((m.goto i .out).phase j).Inside ↔ j ≠ i ∧ (m.phase j).Inside := by
    intro j
    rw [goto_phase]
    split
    · rename_i hj
      refine iff_of_false ?_ fun hc => hc.1 hj
      rintro ⟨rest, hc⟩
      cases hc
    · rename_i hj
      exact (and_iff_right hj).symm
  have hleft := h.exclusive.leave ⟨[], hi⟩ hinside
  refine ⟨⟨iff_of_false (fun hc => hc rfl) fun ⟨j, hj⟩ => hleft.none id j hj, hleft.unique⟩,
    fun j rest hj => absurd ⟨rest, hj⟩ (hleft.none id j), fun _ => h.finishing i [] hi⟩

/-- **Every step keeps the invariant.** -/
theorem Inv.step {d : δ} (h : Inv d m) (a : Act ι δ) : Inv d (m.step a) := by
  have hnot : ∀ p : Phase δ, (∀ rest, p ≠ .inside rest) → ¬ p.Inside :=
    fun p hp ⟨rest, hc⟩ => hp rest hc
  cases a with
  | call i sec =>
    rw [Machine.step]
    split
    · rename_i hi
      exact h.goto (hnot _ fun _ hc => by cases hc) (hi ▸ hnot _ fun _ hc => by cases hc)
    · exact h
  | access i =>
    rw [Machine.step, Machine.access]
    split
    · exact h
    · rename_i sec hi
      have hout : ¬ (m.phase i).Inside := hi ▸ hnot _ fun _ hc => by cases hc
      dsimp only
      split
      · -- the exchange writes 1 over what is not 0
        rename_i htaken
        have hmoved := h.goto (i := i) (p := .poll sec) (hnot _ fun _ hc => by cases hc) hout
        exact ⟨⟨iff_of_true (show (1 : UInt32) ≠ 0 by decide) (hmoved.exclusive.taken_iff.1 htaken),
          hmoved.exclusive.unique⟩, hmoved.finishing,
          fun hc => absurd hc (show (1 : UInt32) ≠ 0 by decide)⟩
      · rename_i hfree
        exact h.take (not_not.1 hfree)
    · rename_i sec hi
      split
      · exact h
      · exact h.goto (hnot _ fun _ hc => by cases hc) (hi ▸ hnot _ fun _ hc => by cases hc)
    · rename_i f rest hi
      exact h.work hi
    · rename_i hi
      exact h.leave hi

/-! ## Nobody is shut out -/

/-- A processor finishes its section and leaves, the others staying where
they are. -/
theorem finish_section (rest : Section δ) (m : Machine ι δ) (hi : m.phase i = .inside rest) :
    let m' := runFrom Machine.step m (List.replicate (rest.length + 1) (.access i))
    m'.lock = 0 ∧ ∀ j, j ≠ i → m'.phase j = m.phase j := by
  induction rest generalizing m with
  | nil =>
    have hstep : m.step (.access i) = { m.goto i .out with lock := 0 } := by
      rw [Machine.step, Machine.access, hi]
    intro m'
    have hm' : m' = m.step (.access i) := rfl
    rw [hm', hstep]
    exact ⟨rfl, fun j hj => (goto_phase m i j .out).trans (if_neg hj)⟩
  | cons f rest ih =>
    have hstep : m.step (.access i) = { m.goto i (.inside rest) with data := f m.data } := by
      rw [Machine.step, Machine.access, hi]
    have hnext : (m.step (.access i)).phase i = .inside rest := by
      rw [hstep]
      exact (goto_phase m i i (.inside rest)).trans (if_pos rfl)
    obtain ⟨hlock, hothers⟩ := ih (m.step (.access i)) hnext
    refine ⟨hlock, fun j hj => (hothers j hj).trans ?_⟩
    rw [hstep]
    exact (goto_phase m i j (.inside rest)).trans (if_neg hj)

/-- A processor at the exchange takes a lock that is free. -/
theorem take_free {sec : Section δ} (hfree : m.lock = 0) (hi : m.phase i = .exchange sec) :
    ((m.step (.access i)).phase i).Inside := by
  refine ⟨sec, ?_⟩
  simp only [Machine.step, Machine.access, hi, hfree, ne_eq, not_true, if_false]
  exact (goto_phase _ i i (.inside sec)).trans (if_pos rfl)

/-- **A lock that is free is taken** within two accesses of one who wants
it. -/
theorem enters_free {sec : Section δ} (hfree : m.lock = 0)
    (hi : m.phase i = .exchange sec ∨ m.phase i = .poll sec) :
    ∃ more : List (Act ι δ), ((runFrom Machine.step m more).phase i).Inside := by
  rcases hi with hi | hi
  · exact ⟨[.access i], take_free hfree hi⟩
  · have hstep : m.step (.access i) = m.goto i (.exchange sec) := by
      simp only [Machine.step, Machine.access, hi, hfree, ne_eq, not_true, if_false]
    refine ⟨[.access i, .access i], ?_⟩
    rw [runFrom_cons, hstep]
    exact take_free hfree ((goto_phase m i i (.exchange sec)).trans (if_pos rfl))

/-- **What a lock gives.** After every interleaving of any number of
processors, no two are behind the lock; the data is what the sections
leave when each is run in one piece, in the order in which the lock was
taken, as soon as the one inside has finished; and one who waits can
still get in. -/
theorem sections_serial (d : δ) (acts : List (Act ι δ)) :
    let m := runFrom Machine.step (spinInit d) acts
    (∀ i j, (m.phase i).Inside → (m.phase j).Inside → i = j) ∧
      (∀ i rest, m.phase i = .inside rest → runAll rest m.data = serial m.begun d) ∧
      ((∀ i, ¬ (m.phase i).Inside) → m.data = serial m.begun d) ∧
      ∀ i sec, m.phase i = .exchange sec ∨ m.phase i = .poll sec →
        ∃ more, ((runFrom Machine.step m more).phase i).Inside := by
  intro m
  have h : Inv d m := runFrom_invariant (fun m a hm => hm.step a) acts (inv_spinInit d)
  refine ⟨h.exclusive.unique, h.finishing, fun hnone => h.finished ?_, fun i sec hi => ?_⟩
  · by_contra hlock
    obtain ⟨i, hin⟩ := h.exclusive.taken_iff.1 hlock
    exact hnone i hin
  · by_cases hlock : m.lock = 0
    · exact enters_free hlock hi
    · -- the one inside leaves first
      obtain ⟨j, rest, hj⟩ := h.exclusive.taken_iff.1 hlock
      have hne : i ≠ j := by
        rintro rfl
        rw [hj] at hi
        rcases hi with hc | hc <;> cases hc
      obtain ⟨hfree, hothers⟩ := finish_section rest m hj
      obtain ⟨more, hmore⟩ := enters_free hfree (hi.imp (hothers i hne).trans (hothers i hne).trans)
      refine ⟨List.replicate (rest.length + 1) (.access j) ++ more, ?_⟩
      rw [runFrom_append]
      exact hmore

end Spinlock

end Kos
