import Mathlib.Data.List.Basic
import Mathlib.Order.Nat
/-!
# Common — ring buffers with running counters

A ring of `N` cells holds a queue between two counters that only grow; a
counter stands for the cell of its residue. A block is copied in or out
in one piece, or in two where it runs over the end of the buffer. Seen
from the counters there is no seam: a copy in appends to the queue and a
copy out returns its front.
-/

namespace Kos

namespace Ring

variable {α : Type*}

/-- Copy `n` cells of `src` to position `pos`. -/
def copy (buf : ℕ → α) (pos : ℕ) (src : ℕ → α) (n : ℕ) : ℕ → α := fun i =>
  if pos ≤ i ∧ i < pos + n then src (i - pos) else buf i

/-- The `n` cells from position `pos` on. -/
def read (buf : ℕ → α) (pos n : ℕ) : List α := (List.range n).map fun i => buf (pos + i)

/-- The queue of `n` elements from the counter `head` on. -/
def contents (N : ℕ) (buf : ℕ → α) (head n : ℕ) : List α :=
  (List.range n).map fun i => buf ((head + i) % N)

/-- Copy a block in at the counter `tail`. -/
def push (N : ℕ) (buf : ℕ → α) (tail : ℕ) (src : ℕ → α) (n : ℕ) : ℕ → α :=
  if tail % N + n > N then
    copy (copy buf (tail % N) src (N - tail % N)) 0 (fun i => src (N - tail % N + i))
      (n - (N - tail % N))
  else copy buf (tail % N) src n

/-- Copy a block out at the counter `head`. -/
def pop (N : ℕ) (buf : ℕ → α) (head n : ℕ) : List α :=
  if head % N + n > N then
    read buf (head % N) (N - head % N) ++ read buf 0 (n - (N - head % N))
  else read buf (head % N) n

variable {N : ℕ} {buf src : ℕ → α} {head tail n m : ℕ}

theorem contents_congr {buf' : ℕ → α} {head' : ℕ}
    (h : ∀ i < n, buf ((head + i) % N) = buf' ((head' + i) % N)) :
    contents N buf head n = contents N buf' head' n :=
  List.map_congr_left fun i hi => h i (List.mem_range.mp hi)

theorem length_read (buf : ℕ → α) (pos n : ℕ) : (read buf pos n).length = n := by
  rw [read, List.length_map, List.length_range]

theorem getElem?_read {pos i : ℕ} (hi : i < n) : (read buf pos n)[i]? = some (buf (pos + i)) := by
  rw [read, List.getElem?_map, List.getElem?_range hi, Option.map_some]

theorem read_congr {buf' : ℕ → α} {pos pos' : ℕ} (h : ∀ i < n, buf (pos + i) = buf' (pos' + i)) :
    read buf pos n = read buf' pos' n :=
  List.map_congr_left fun i hi => h i (List.mem_range.mp hi)

theorem copy_congr {src' : ℕ → α} {pos : ℕ} (h : ∀ i < n, src i = src' i) :
    copy buf pos src n = copy buf pos src' n := by
  funext i
  unfold copy
  split
  · exact h _ (by omega)
  · rfl

/-- A copy in reads no more than the block. -/
theorem push_congr {src' : ℕ → α} (h : ∀ i < n, src i = src' i) :
    push N buf tail src n = push N buf tail src' n := by
  unfold push
  split
  · rw [copy_congr fun i hi => h i (by omega), copy_congr fun i hi => h _ (by omega)]
  · exact copy_congr h

/-- **A block splits at any point.** -/
theorem read_add (buf : ℕ → α) (pos n m : ℕ) :
    read buf pos (n + m) = read buf pos n ++ read buf (pos + n) m := by
  unfold read
  rw [List.range_add, List.map_append, List.map_map]
  simp only [Function.comp_def, Nat.add_assoc]

/-- Equal blocks have equal parts. -/
theorem read_add_inj {buf' : ℕ → α} {pos pos' : ℕ} (h : read buf pos (n + m) = read buf' pos' (n + m)) :
    read buf pos n = read buf' pos' n ∧ read buf (pos + n) m = read buf' (pos' + n) m := by
  rw [read_add, read_add] at h
  exact List.append_inj h (by rw [length_read, length_read])

/-- A block that is known is known in its parts. -/
theorem read_append {pos : ℕ} {as bs : List α} :
    read buf pos (as ++ bs).length = as ++ bs ↔
      read buf pos as.length = as ∧ read buf (pos + as.length) bs.length = bs := by
  rw [List.length_append, read_add]
  constructor
  · intro h
    exact List.append_inj h (length_read ..)
  · rintro ⟨has, hbs⟩
    rw [has, hbs]

/-- A list, laid out in memory, is read back. -/
theorem read_getD (l : List α) (d : α) : read (fun i => l.getD i d) 0 l.length = l := by
  refine List.ext_getElem? fun i => ?_
  rcases Nat.lt_or_ge i l.length with hi | hi
  · rw [getElem?_read hi, Nat.zero_add, List.getD_eq_getElem?_getD, List.getElem?_eq_getElem hi,
      Option.getD_some]
  · rw [List.getElem?_eq_none hi, List.getElem?_eq_none (by rw [length_read]; exact hi)]

/-- A queue depends on the residue of its counter only. -/
theorem contents_mod (h : head % N = tail % N) : contents N buf head n = contents N buf tail n := by
  refine contents_congr fun i _ => ?_
  rw [Nat.add_mod, h, ← Nat.add_mod]

/-- **A queue splits at any point.** -/
theorem contents_add (N : ℕ) (buf : ℕ → α) (head n m : ℕ) :
    contents N buf head (n + m) = contents N buf head n ++ contents N buf (head + n) m := by
  unfold contents
  rw [List.range_add, List.map_append, List.map_map]
  simp only [Function.comp_def, Nat.add_assoc]

/-- The cell `j` places after a counter. -/
theorem add_mod_cases (hN : 0 < N) (tail : ℕ) {j : ℕ} (hj : j < N) :
    (tail % N + j < N ∧ (tail + j) % N = tail % N + j) ∨
      (N ≤ tail % N + j ∧ (tail + j) % N = tail % N + j - N) := by
  have hlt := Nat.mod_lt tail hN
  rw [Nat.add_mod, Nat.mod_eq_of_lt hj]
  rcases Nat.lt_or_ge (tail % N + j) N with h | h
  · exact Or.inl ⟨h, Nat.mod_eq_of_lt h⟩
  · refine Or.inr ⟨h, ?_⟩
    rw [Nat.mod_eq_sub_mod h, Nat.mod_eq_of_lt (by omega)]

/-- **What a copy in leaves in the cell `j` places after the counter.** -/
theorem push_add (hN : 0 < N) (hn : n ≤ N) {j : ℕ} (hj : j < N) :
    push N buf tail src n ((tail + j) % N) = if j < n then src j else buf ((tail + j) % N) := by
  have hlt := Nat.mod_lt tail hN
  unfold push
  rcases add_mod_cases hN tail hj with ⟨h, hcell⟩ | ⟨h, hcell⟩
  · -- before the end of the buffer: the first piece, or the only one
    rw [hcell]
    split
    · rw [copy, if_neg (by omega), copy]
      split
      · rw [if_pos (by omega), Nat.add_sub_cancel_left]
      · omega
    · rw [copy]
      simp only [Nat.le_add_right, true_and, Nat.add_lt_add_iff_left, Nat.add_sub_cancel_left]
  · rw [hcell]
    split
    · rw [copy]
      split
      · rw [if_pos (by omega)]
        exact congrArg src (by omega)
      · rw [if_neg (by omega), copy, if_neg (by omega)]
    · rw [copy, if_neg (by omega), if_neg (by omega)]

theorem push_zero (hN : 0 < N) : push N buf tail src 0 = buf := by
  have hlt := Nat.mod_lt tail hN
  funext i
  rw [push, if_neg (by omega), copy, if_neg (by omega)]

/-- **A copy in appends to the queue.** -/
theorem contents_push (hN : 0 < N) (hfit : n + m ≤ N) (htail : tail % N = (head + n) % N) :
    contents N (push N buf tail src m) head (n + m) =
      contents N buf head n ++ (List.range m).map src := by
  rw [contents_add]
  congr 1
  · -- the cells queued so far are the last `N - (tail - head)` after the counter
    refine contents_congr fun i hi => ?_
    have hcell : (head + i) % N = (tail + (N - n + i)) % N := by
      rw [Nat.add_mod tail, htail, ← Nat.add_mod, show head + n + (N - n + i) = head + i + N by omega,
        Nat.add_mod_right]
    rw [hcell, push_add hN (by omega) (by omega), if_neg (by omega)]
  · unfold contents
    refine List.map_congr_left fun i hi => ?_
    have hi := List.mem_range.mp hi
    rw [Nat.add_mod, ← htail, ← Nat.add_mod, push_add hN (by omega) (by omega), if_pos hi]

/-- **A copy out returns the front of the queue.** -/
theorem pop_eq (hN : 0 < N) (hn : n ≤ N) : pop N buf head n = contents N buf head n := by
  have hlt := Nat.mod_lt head hN
  unfold pop
  split
  · rw [show n = (N - head % N) + (n - (N - head % N)) by omega, contents_add]
    congr 1
    · refine List.map_congr_left fun i hi => ?_
      have hi := List.mem_range.mp hi
      rcases add_mod_cases hN head (j := i) (by omega) with ⟨-, h⟩ | ⟨h, -⟩
      · rw [h]
      · omega
    · rw [show N - head % N + (n - (N - head % N)) - (N - head % N) = n - (N - head % N) by omega]
      refine List.map_congr_left fun i hi => ?_
      have hi := List.mem_range.mp hi
      rw [Nat.add_assoc]
      rcases add_mod_cases hN head (j := N - head % N + i) (by omega) with ⟨h, -⟩ | ⟨-, h⟩
      · omega
      · rw [h]
        exact congrArg buf (by omega)
  · refine List.map_congr_left fun i hi => ?_
    have hi := List.mem_range.mp hi
    rcases add_mod_cases hN head (j := i) (by omega) with ⟨-, h⟩ | ⟨h, -⟩
    · rw [h]
    · omega

/-! ## Bounded queues -/

/-- A queue of at most `N` elements. -/
structure Fifo (α : Type*) (N : ℕ) where
  items : List α
  bound : items.length ≤ N

/-- Append what there is room for. -/
def Fifo.put (f : Fifo α N) (block : List α) : Fifo α N where
  items := f.items ++ block.take (N - f.items.length)
  bound := by
    have := f.bound
    rw [List.length_append, List.length_take]
    omega

/-- Take up to `n` elements from the front. -/
def Fifo.get (f : Fifo α N) (n : ℕ) : List α × Fifo α N where
  fst := f.items.take n
  snd := ⟨f.items.drop n, by
    have := f.bound
    rw [List.length_drop]
    omega⟩

/-- The pieces of a block at a counter: where in the buffer, and how
many cells. -/
def pieces (N counter n : ℕ) : List (ℕ × ℕ) :=
  if counter % N + n > N then [(counter % N, N - counter % N), (0, n - (N - counter % N))]
  else [(counter % N, n)]

/-- **A block no larger than the buffer lies within it.** -/
theorem pieces_within (hN : 0 < N) (hn : n ≤ N) (counter : ℕ) :
    ∀ p ∈ pieces N counter n, p.1 + p.2 ≤ N := by
  have hlt := Nat.mod_lt counter hN
  intro p hp
  unfold pieces at hp
  split at hp
  · rcases List.mem_cons.1 hp with rfl | hp
    · exact (Nat.add_sub_cancel' hlt.le).le
    · rw [List.mem_singleton.1 hp]
      change 0 + (n - (N - counter % N)) ≤ N
      omega
  · rename_i hfit
    rw [List.mem_singleton.1 hp]
    exact Nat.not_lt.1 hfit

end Ring

end Kos
