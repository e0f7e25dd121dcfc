import Kos.Common.ByteMem
import Mathlib.Data.List.Basic
/-!
# Common — linked lists in byte memory

A node is an address; its first word is the address of the next one and
`0` ends the list. `Chain m p l` says that the list starting at `p` has
exactly the nodes `l`. It is read off the first words of its nodes, so
whatever leaves those alone leaves the chain alone.
-/

namespace Kos

variable {m m' : ByteMem} {p o : ℕ} {l : List ℕ}

/-- **The nodes of the linked list at `p`**, in order. -/
def Chain (m : ByteMem) : ℕ → List ℕ → Prop
  | p, [] => p = 0
  | p, o :: l => p = o ∧ o ≠ 0 ∧ Chain m (m.load o 8) l

theorem Chain.congr (h : Chain m p l) (hl : ∀ o ∈ l, m'.load o 8 = m.load o 8) :
    Chain m' p l := by
  induction l generalizing p with
  | nil => exact h
  | cons o l ih =>
    obtain ⟨rfl, h0, hrest⟩ := h
    refine ⟨rfl, h0, ?_⟩
    rw [hl p List.mem_cons_self]
    exact ih hrest fun q hq => hl q (List.mem_cons_of_mem p hq)

/-- The list is empty exactly when its head is `0`. -/
theorem Chain.nil_iff (h : Chain m p l) : l = [] ↔ p = 0 := by
  cases l with
  | nil => exact ⟨fun _ => h, fun _ => rfl⟩
  | cons o l =>
    obtain ⟨rfl, h0, -⟩ := h
    exact ⟨fun hnil => (List.cons_ne_nil _ _ hnil).elim, fun hp => absurd hp h0⟩

/-- **Pushing a node**: it is linked to the old head. -/
theorem Chain.push (h : Chain m p l) (hp : p < 2 ^ 64) (h0 : o ≠ 0)
    (hl : ∀ q ∈ l, q + 8 ≤ o ∨ o + 8 ≤ q) : Chain (m.store o 8 p) o (o :: l) := by
  refine ⟨rfl, h0, ?_⟩
  rw [ByteMem.load_store_of_lt hp]
  exact h.congr fun q hq => ByteMem.load_store_of_disjoint (hl q hq)

/-- The addresses `p, p + c, p + 2c, …`, `n` of them. -/
def slots (p c : ℕ) : ℕ → List ℕ
  | 0 => []
  | n + 1 => p :: slots (p + c) c n

theorem mem_slots {p c n o : ℕ} : o ∈ slots p c n ↔ ∃ k < n, o = p + k * c := by
  induction n generalizing p with
  | zero => simp [slots]
  | succ n ih =>
    rw [slots, List.mem_cons, ih]
    constructor
    · rintro (rfl | ⟨k, hk, rfl⟩)
      · exact ⟨0, by omega, by omega⟩
      · exact ⟨k + 1, by omega, by rw [Nat.add_mul]; omega⟩
    · rintro ⟨k, hk, rfl⟩
      cases k with
      | zero => exact Or.inl (by omega)
      | succ k => exact Or.inr ⟨k, by omega, by rw [Nat.add_mul]; omega⟩

theorem slots_nodup {p c n : ℕ} (hc : 0 < c) : (slots p c n).Nodup := by
  induction n generalizing p with
  | zero => exact List.nodup_nil
  | succ n ih =>
    refine List.nodup_cons.2 ⟨fun hmem => ?_, ih⟩
    obtain ⟨k, -, hk⟩ := mem_slots.1 hmem
    omega

/-- **Two strides give the same addresses** exactly if they are equal, or
there is at most one address. -/
theorem slots_eq_iff {p c d n : ℕ} : slots p c n = slots p d n ↔ c = d ∨ n ≤ 1 := by
  constructor
  · intro h
    rcases Nat.lt_or_ge 1 n with hn | hn
    · obtain ⟨k, rfl⟩ : ∃ k, n = k + 2 := ⟨n - 2, by omega⟩
      simp only [slots, List.cons.injEq, true_and] at h
      exact Or.inl (Nat.add_left_cancel h.1)
    · exact Or.inr hn
  · rintro (rfl | hn)
    · rfl
    · rcases Nat.le_one_iff_eq_zero_or_eq_one.mp hn with rfl | rfl <;> rfl

/-- **Linking each slot to the next makes a chain.** -/
theorem Chain.of_links {p c n : ℕ} (hp : p ≠ 0)
    (hnext : ∀ k < n, m.load (p + k * c) 8 = p + (k + 1) * c)
    (hlast : m.load (p + n * c) 8 = 0) : Chain m p (slots p c (n + 1)) := by
  induction n generalizing p with
  | zero =>
    refine ⟨rfl, hp, ?_⟩
    simpa [Chain, slots] using hlast
  | succ n ih =>
    have hfirst := hnext 0 (by omega)
    rw [Nat.zero_mul, Nat.add_zero, Nat.zero_add, Nat.one_mul] at hfirst
    refine ⟨rfl, hp, ?_⟩
    rw [hfirst]
    refine ih (by omega) (fun k hk => ?_) ?_
    · have h := hnext (k + 1) (by omega)
      rw [Nat.add_mul k 1 c, Nat.one_mul] at h
      rw [show p + c + k * c = p + (k * c + c) by omega, h, Nat.add_mul (k + 1) 1 c]
      omega
    · rw [show p + c + n * c = p + (n + 1) * c by rw [Nat.add_mul]; omega]
      exact hlast

end Kos
