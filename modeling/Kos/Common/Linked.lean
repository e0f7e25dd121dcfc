import Kos.Common.Chain
/-!
# Common — linked lists given by a next function

`Links next p l q` says that following `next` from `p` passes the nodes
`l`, none of them `0`, and arrives at `q`. A list that ends is one that
arrives at `0`. There is at most one such list from a node, so a node
that leads back to itself is on none.
-/

namespace Kos

variable {next next' : ℕ → ℕ} {p q o : ℕ} {l l' : List ℕ}

/-- **The nodes passed** from `p` on the way to `q`. -/
def Links (next : ℕ → ℕ) : ℕ → List ℕ → ℕ → Prop
  | p, [], q => p = q
  | p, o :: l, q => p = o ∧ o ≠ 0 ∧ Links next (next o) l q

theorem Links.congr (h : Links next p l q) (hl : ∀ o ∈ l, next' o = next o) :
    Links next' p l q := by
  induction l generalizing p with
  | nil => exact h
  | cons o l ih =>
    obtain ⟨rfl, h0, hrest⟩ := h
    refine ⟨rfl, h0, ?_⟩
    rw [hl p List.mem_cons_self]
    exact ih hrest fun o ho => hl o (List.mem_cons_of_mem p ho)

theorem links_append : Links next p (l ++ l') q ↔ ∃ m, Links next p l m ∧ Links next m l' q := by
  induction l generalizing p with
  | nil => exact ⟨fun h => ⟨p, rfl, h⟩, fun ⟨m, hm, h⟩ => hm ▸ h⟩
  | cons o l ih =>
    constructor
    · rintro ⟨rfl, h0, hrest⟩
      obtain ⟨m, h1, h2⟩ := ih.1 hrest
      exact ⟨m, ⟨rfl, h0, h1⟩, h2⟩
    · rintro ⟨m, ⟨rfl, h0, h1⟩, h2⟩
      exact ⟨rfl, h0, ih.2 ⟨m, h1, h2⟩⟩

/-- **The last node is linked elsewhere**, and the others stay. -/
theorem Links.redirect {a q' : ℕ} (h : Links next p (l ++ [a]) q) (hl : ∀ b ∈ l, next' b = next b)
    (ha : next' a = q') : Links next' p (l ++ [a]) q' := by
  obtain ⟨m, h1, rfl, hm, -⟩ := links_append.1 h
  exact links_append.2 ⟨m, h1.congr hl, rfl, hm, ha⟩

/-- **A node is put at the end** by linking the last one to it. -/
theorem Links.snoc {a : ℕ} (h : Links next p (l ++ [a]) 0) (hl : ∀ b ∈ l, next' b = next b)
    (ha : next' a = o) (ho : next' o = 0) (h0 : o ≠ 0) : Links next' p (l ++ [a] ++ [o]) 0 :=
  links_append.2 ⟨o, h.redirect hl ha, rfl, h0, ho⟩

/-- A list that ends passes whatever its head leads to. -/
theorem Links.through (h : Links next p l q) (h' : Links next p l' 0) :
    ∃ rest, l' = l ++ rest ∧ Links next q rest 0 := by
  induction l generalizing p l' with
  | nil =>
    obtain rfl : p = q := h
    exact ⟨l', rfl, h'⟩
  | cons o l ih =>
    obtain ⟨rfl, h0, hrest⟩ := h
    cases l' with
    | nil => exact absurd h' h0
    | cons o' l' =>
      obtain ⟨rfl, -, hrest'⟩ := h'
      obtain ⟨rest, rfl, hq⟩ := ih hrest hrest'
      exact ⟨rest, rfl, hq⟩

/-- **There is one list from a node.** -/
theorem Links.unique (h : Links next p l 0) (h' : Links next p l' 0) : l = l' := by
  obtain ⟨rest, rfl, hrest⟩ := h.through h'
  cases rest with
  | nil => rw [List.append_nil]
  | cons o rest => exact absurd hrest.1.symm hrest.2.1

/-- **A node that leads back to itself is on no list that ends.** -/
theorem Links.not_ends (h : Links next p l p) (hl : l ≠ []) : ¬ Links next p l' 0 := by
  intro h'
  obtain ⟨rest, rfl, hrest⟩ := h.through h'
  have hlen := congrArg List.length (hrest.unique h')
  have hpos := List.length_pos_iff.2 hl
  rw [List.length_append] at hlen
  omega

/-- The chains of byte memory, as lists. -/
theorem chain_iff_links {m : ByteMem} : Chain m p l ↔ Links (fun o => m.load o 8) p l 0 := by
  induction l generalizing p with
  | nil => exact Iff.rfl
  | cons o l ih => exact and_congr_right fun _ => and_congr_right fun _ => ih

end Kos
