import Mathlib.Data.List.Induction
import Mathlib.Data.List.Nodup
/-!
# Common — what a history of writes says

A history is a list of keys and values, oldest first. `keys` are the
keys in the order in which they first appear, and `latest` is the value
that a key was given last. A table that writes in place and appends what
is new keeps exactly these, up to its capacity.
-/

namespace Kos

namespace Registry

variable {κ ν : Type*} [DecidableEq κ] {h : List (κ × ν)} {k : κ} {e : κ × ν}

/-- The keys of a history, in the order of their first appearance. -/
def keys (h : List (κ × ν)) : List κ :=
  h.foldl (fun ks e => if e.1 ∈ ks then ks else ks ++ [e.1]) []

/-- The value a key was given last. -/
def latest (h : List (κ × ν)) (k : κ) : Option ν :=
  (h.reverse.find? fun e => e.1 = k).map Prod.snd

theorem keys_concat (h : List (κ × ν)) (e : κ × ν) :
    keys (h ++ [e]) = if e.1 ∈ keys h then keys h else keys h ++ [e.1] := by
  rw [keys, List.foldl_append]
  rfl

theorem latest_concat (h : List (κ × ν)) (e : κ × ν) (k : κ) :
    latest (h ++ [e]) k = if e.1 = k then some e.2 else latest h k := by
  rw [latest, List.reverse_append, List.reverse_singleton, List.singleton_append, List.find?_cons]
  by_cases hk : e.1 = k
  · simp [hk]
  · simp [hk, latest]

/-- A key that was never written has no value. -/
theorem latest_eq_none (hk : k ∉ h.map Prod.fst) : latest h k = none := by
  induction h using List.reverseRecOn with
  | nil => rfl
  | append_singleton h e ih =>
    rw [List.map_append, List.mem_append, not_or] at hk
    have hne : e.1 ≠ k := fun heq => hk.2 (List.mem_singleton.2 heq.symm)
    rw [latest_concat, if_neg hne, ih hk.1]

/-- A key that was written once has the value it was given. -/
theorem latest_of_mem {v : ν} (hnd : (h.map Prod.fst).Nodup) (hmem : (k, v) ∈ h) :
    latest h k = some v := by
  induction h using List.reverseRecOn with
  | nil => cases hmem
  | append_singleton h e ih =>
    rw [List.map_append, List.nodup_append] at hnd
    rw [latest_concat]
    rcases List.mem_append.1 hmem with hold | hnew
    · have hne : e.1 ≠ k := fun heq =>
        hnd.2.2 k (List.mem_map_of_mem hold) e.1 List.mem_cons_self heq.symm
      rw [if_neg hne, ih hnd.1 hold]
    · obtain rfl := List.mem_singleton.1 hnew
      exact if_pos rfl

/-- **No key is listed twice.** -/
theorem nodup_keys (h : List (κ × ν)) : (keys h).Nodup := by
  induction h using List.reverseRecOn with
  | nil => exact List.nodup_nil
  | append_singleton h e ih =>
    rw [keys_concat]
    split
    · exact ih
    · rename_i hnew
      rw [List.nodup_append]
      refine ⟨ih, List.nodup_singleton _, fun a ha b hb => ?_⟩
      rw [List.mem_singleton.mp hb]
      rintro rfl
      exact hnew ha

/-- The first `n` keys after one more write. -/
theorem take_keys_concat (n : ℕ) (h : List (κ × ν)) (e : κ × ν) :
    (keys (h ++ [e])).take n =
      if e.1 ∈ (keys h).take n then (keys h).take n
      else if ((keys h).take n).length < n then (keys h).take n ++ [e.1]
      else (keys h).take n := by
  rw [keys_concat]
  rcases Nat.lt_or_ge (keys h).length n with hlt | hge
  · -- there is room, and all keys are among the first
    have hall : (keys h).take n = keys h := List.take_of_length_le (Nat.le_of_lt hlt)
    rw [hall, if_pos hlt]
    split
    · exact hall
    · exact List.take_of_length_le (by rw [List.length_append, List.length_singleton]; omega)
  · -- there is none, and the first keys stay
    have hfull : ¬ ((keys h).take n).length < n := by
      rw [List.length_take]
      omega
    rw [if_neg hfull, ite_self]
    split
    · rfl
    · exact List.take_append_of_le_length hge

end Registry

end Kos
