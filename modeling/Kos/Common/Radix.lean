import Mathlib.Data.List.Induction
import Mathlib.Order.Nat
/-!
# Common — trees of tables in memory

A table is an address and holds an entry at every index; an entry may
link to another table. The tables under a root are reached along paths
of indices. They form a tree down to depth `d` when no two paths of at
most `d` indices end at one table. In a tree a write to one entry is
seen by the paths through that entry and by no others, so every change
is local: cutting a link removes the paths below it, and linking a new
empty table adds one path.
-/

namespace Kos

namespace Radix

variable {E : Type*}

/-- Tables in memory: an entry at every address and index. -/
abbrev Tables (E : Type*) : Type _ := ℕ → ℕ → E

/-- Write one entry. -/
def set (m : Tables E) (t i : ℕ) (e : E) : Tables E :=
  Function.update m t (Function.update (m t) i e)

@[simp] theorem set_self (m : Tables E) (t i : ℕ) (e : E) : set m t i e t i = e := by
  simp [set]

theorem set_of_ne {m : Tables E} {t i u j : ℕ} {e : E} (h : ¬ (u = t ∧ j = i)) :
    set m t i e u j = m u j := by
  by_cases hu : u = t
  · subst hu
    have hj : j ≠ i := fun hj => h ⟨rfl, hj⟩
    simp [set, hj]
  · simp [set, hu]

/-- The last write to an entry counts. -/
theorem set_set (m : Tables E) (t i : ℕ) (e e' : E) :
    set (set m t i e) t i e' = set m t i e' := by
  simp [set]

/-- Writing what is there changes nothing. -/
theorem set_eq_self {m : Tables E} {t i : ℕ} {e : E} (h : m t i = e) : set m t i e = m := by
  rw [set, ← h, Function.update_eq_self, Function.update_eq_self]

/-- Writes to different entries may be made in either order. -/
theorem set_comm {m : Tables E} {t i u j : ℕ} {e e' : E} (h : ¬ (t = u ∧ i = j)) :
    set (set m t i e) u j e' = set (set m u j e') t i e := by
  funext v k
  by_cases ht : v = t ∧ k = i
  · obtain ⟨rfl, rfl⟩ := ht
    rw [set_of_ne h, set_self, set_self]
  · rw [set_of_ne ht]
    by_cases hu : v = u ∧ k = j
    · obtain ⟨rfl, rfl⟩ := hu
      rw [set_self, set_self]
    · rw [set_of_ne hu, set_of_ne hu, set_of_ne ht]

/-- A table that is replaced as a whole is another than the one written to. -/
theorem update_set {m : Tables E} {t i u : ℕ} {e : E} {row : ℕ → E} (h : u ≠ t) :
    Function.update (set m t i e) u row = set (Function.update m u row) t i e := by
  rw [set, set, Function.update_of_ne h.symm, Function.update_comm h]

variable (link : E → Option ℕ)

/-- The table a path leads to. -/
def walk (m : Tables E) (t : ℕ) : List ℕ → Option ℕ
  | [] => some t
  | i :: p => (link (m t i)).bind fun u => walk m u p

variable {link} {m m' : Tables E} {root t u new i j d : ℕ} {p q s : List ℕ} {e : E}

@[simp] theorem walk_nil (m : Tables E) (t : ℕ) : walk link m t [] = some t := rfl

theorem walk_append (m : Tables E) (t : ℕ) (p q : List ℕ) :
    walk link m t (p ++ q) = (walk link m t p).bind fun u => walk link m u q := by
  induction p generalizing t with
  | nil => rfl
  | cons i p ih =>
    rw [List.cons_append, walk, walk]
    cases link (m t i) with
    | none => rfl
    | some u => exact ih u

theorem walk_snoc (m : Tables E) (t : ℕ) (p : List ℕ) (i : ℕ) :
    walk link m t (p ++ [i]) = (walk link m t p).bind fun u => link (m u i) := by
  rw [walk_append]
  congr 1
  funext u
  rw [walk]
  cases link (m u i) <;> rfl

/-- **The tables under `root` form a tree down to depth `d`.** -/
def IsTree (link : E → Option ℕ) (m : Tables E) (root d : ℕ) : Prop :=
  ∀ p q t, p.length ≤ d → q.length ≤ d → walk link m root p = some t →
    walk link m root q = some t → p = q

/-- The table `t` is under `root`, at depth at most `d`. -/
def Under (link : E → Option ℕ) (m : Tables E) (root d t : ℕ) : Prop :=
  ∃ p, p.length ≤ d ∧ walk link m root p = some t

/-- **A write is seen only by paths through the entry.** -/
theorem IsTree.walk_set (h : IsTree link m root d) (hp : p.length ≤ d)
    (ht : walk link m root p = some t) (hq : q.length ≤ d + 1) (hpre : ¬ p ++ [i] <+: q) :
    walk link (set m t i e) root q = walk link m root q := by
  induction q using List.reverseRecOn with
  | nil => rfl
  | append_singleton q j ih =>
    rw [List.length_append, List.length_singleton] at hq
    rw [walk_snoc, walk_snoc, ih (by omega) fun hc => hpre (hc.trans (List.prefix_append q [j]))]
    cases hu : walk link m root q with
    | none => rfl
    | some u =>
      simp only [Option.bind_some]
      rw [set_of_ne]
      rintro ⟨rfl, rfl⟩
      -- the path ends at the table written to, so it is the path to it
      obtain rfl : q = p := h q p u (by omega) hp hu ht
      exact hpre (List.prefix_refl _)

theorem not_prefix_self (p : List ℕ) (i : ℕ) : ¬ p ++ [i] <+: p := by
  intro h
  have := h.length_le
  rw [List.length_append, List.length_singleton] at this
  omega

/-- The paths through the entry go on from what was written. -/
theorem IsTree.walk_set_through (h : IsTree link m root d) (hp : p.length ≤ d)
    (ht : walk link m root p = some t) (s : List ℕ) :
    walk link (set m t i e) root (p ++ i :: s) =
      (link e).bind fun u => walk link (set m t i e) u s := by
  rw [walk_append, h.walk_set hp ht (by omega) (not_prefix_self p i), ht, Option.bind_some, walk,
    set_self]

/-- Writing below the last level changes no path. -/
theorem IsTree.walk_set_leaf (h : IsTree link m root d) (hp : p.length = d)
    (ht : walk link m root p = some t) (hq : q.length ≤ d) :
    walk link (set m t i e) root q = walk link m root q := by
  refine h.walk_set hp.le ht (by omega) fun hc => ?_
  have := hc.length_le
  rw [List.length_append, List.length_singleton] at this
  omega

theorem IsTree.set_leaf (h : IsTree link m root d) (hp : p.length = d)
    (ht : walk link m root p = some t) : IsTree link (set m t i e) root d := by
  intro q q' u hq hq' hu hu'
  rw [h.walk_set_leaf hp ht hq] at hu
  rw [h.walk_set_leaf hp ht hq'] at hu'
  exact h q q' u hq hq' hu hu'

/-- **Cutting a link** removes the paths below it and keeps the others. -/
theorem IsTree.walk_cut (h : IsTree link m root d) (hp : p.length ≤ d)
    (ht : walk link m root p = some t) (he : link e = none) (hq : q.length ≤ d)
    (hu : walk link (set m t i e) root q = some u) :
    walk link m root q = some u ∧ ¬ p ++ [i] <+: q := by
  have hpre : ¬ p ++ [i] <+: q := by
    rintro ⟨s, rfl⟩
    rw [List.append_assoc, List.singleton_append, h.walk_set_through hp ht, he] at hu
    cases hu
  rw [h.walk_set hp ht (by omega) hpre] at hu
  exact ⟨hu, hpre⟩

theorem IsTree.cut (h : IsTree link m root d) (hp : p.length ≤ d)
    (ht : walk link m root p = some t) (he : link e = none) :
    IsTree link (set m t i e) root d := by
  intro q q' u hq hq' hu hu'
  exact h q q' u hq hq' (h.walk_cut hp ht he hq hu).1 (h.walk_cut hp ht he hq' hu').1

/-- **A walk reads the tables under the root** and no others. -/
theorem walk_congr (hsame : ∀ u, Under link m root d u → m' u = m u) (hq : q.length ≤ d + 1) :
    walk link m' root q = walk link m root q := by
  induction q using List.reverseRecOn with
  | nil => rfl
  | append_singleton q j ih =>
    rw [List.length_append, List.length_singleton] at hq
    rw [walk_snoc, walk_snoc, ih (by omega)]
    cases hu : walk link m root q with
    | none => rfl
    | some u =>
      simp only [Option.bind_some]
      rw [hsame u ⟨q, by omega, hu⟩]

/-- What is written to a table that is not under the root is not seen. -/
theorem walk_update_of_not_under {row : ℕ → E} (hnew : ¬ Under link m root d new)
    (hq : q.length ≤ d + 1) :
    walk link (Function.update m new row) root q = walk link m root q := by
  induction q using List.reverseRecOn with
  | nil => rfl
  | append_singleton q j ih =>
    rw [List.length_append, List.length_singleton] at hq
    rw [walk_snoc, walk_snoc, ih (by omega)]
    cases hu : walk link m root q with
    | none => rfl
    | some u =>
      have hne : u ≠ new := by
        rintro rfl
        exact hnew ⟨q, by omega, hu⟩
      simp only [Option.bind_some, Function.update_of_ne hne]

/-- Link a new table with every entry `zero`. -/
def linkNew (m : Tables E) (t i : ℕ) (e : E) (new : ℕ) (zero : E) : Tables E :=
  set (Function.update m new fun _ => zero) t i e

variable {zero : E}

/-- **Linking a new empty table** adds one path, the one to it. -/
theorem IsTree.walk_linkNew (h : IsTree link m root d) (hp : p.length < d)
    (ht : walk link m root p = some t) (hnew : ¬ Under link m root d new)
    (he : link e = some new) (hz : link zero = none) (hold : link (m t i) = none)
    (hq : q.length ≤ d) :
    walk link (linkNew m t i e new zero) root q =
      if q = p ++ [i] then some new else walk link m root q := by
  have hm₁ : ∀ q : List ℕ, q.length ≤ d + 1 →
      walk link (Function.update m new fun _ => zero) root q = walk link m root q := fun q hq =>
    walk_update_of_not_under hnew hq
  have h₁ : IsTree link (Function.update m new fun _ => zero) root d := by
    intro q q' u hq hq' hu hu'
    rw [hm₁ q (by omega)] at hu
    rw [hm₁ q' (by omega)] at hu'
    exact h q q' u hq hq' hu hu'
  have ht₁ : walk link (Function.update m new fun _ => zero) root p = some t := by
    rw [hm₁ p (by omega), ht]
  have htn : new ≠ t := by
    rintro rfl
    exact hnew ⟨p, hp.le, ht⟩
  by_cases hpre : p ++ [i] <+: q
  · obtain ⟨s, rfl⟩ := hpre
    rw [List.append_assoc, List.singleton_append, linkNew, h₁.walk_set_through hp.le ht₁, he,
      Option.bind_some]
    cases s with
    | nil => rw [if_pos rfl, walk_nil]
    | cons j s =>
      -- below the new table there is nothing, before and after
      have hne : ¬ p ++ i :: j :: s = p ++ [i] := by simp
      rw [if_neg hne, walk, set_of_ne fun hc => htn hc.1, Function.update_self, hz, Option.bind_none,
        walk_append, ht, Option.bind_some, walk, hold, Option.bind_none]
  · have hne : q ≠ p ++ [i] := by
      rintro rfl
      exact hpre (List.prefix_refl _)
    rw [if_neg hne, linkNew, h₁.walk_set hp.le ht₁ (by omega) hpre, hm₁ q (by omega)]

theorem IsTree.linkNew (h : IsTree link m root d) (hp : p.length < d)
    (ht : walk link m root p = some t) (hnew : ¬ Under link m root d new)
    (he : link e = some new) (hz : link zero = none) (hold : link (m t i) = none) :
    IsTree link (Radix.linkNew m t i e new zero) root d := by
  intro q q' u hq hq' hu hu'
  rw [h.walk_linkNew hp ht hnew he hz hold hq] at hu
  rw [h.walk_linkNew hp ht hnew he hz hold hq'] at hu'
  split at hu <;> split at hu'
  · rename_i h1 h2
    rw [h1, h2]
  · cases hu
    exact absurd ⟨q', hq', hu'⟩ hnew
  · cases hu'
    exact absurd ⟨q, hq, hu⟩ hnew
  · exact h q q' u hq hq' hu hu'

/-- A tree of one empty table. -/
theorem isTree_empty (hz : ∀ i, link (m root i) = none) : IsTree link m root d := by
  have hnil : ∀ q u, walk link m root q = some u → q = [] := by
    intro q u hu
    cases q with
    | nil => rfl
    | cons i q =>
      rw [walk, hz i] at hu
      cases hu
  intro q q' u _ _ hu hu'
  rw [hnil q u hu, hnil q' u hu']

end Radix

end Kos
