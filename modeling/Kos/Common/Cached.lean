import Kos.Common.Run
import Mathlib.Data.Set.Basic
/-!
# Common — what readers may still hold of a store

Readers copy what they read of a store, key by key, and nobody records
which copies there are. `may i k` are the values reader `i` may hold for
key `k`: whatever the store has said since the copy was last dropped. A
write changes what the store says and has some readers drop some copies.
No reader may hold what the store no longer says exactly if every write
has every reader drop what the write takes away.
-/

namespace Kos

variable {σ α ι κ ν : Type*}

/-- A store, and the values each reader may hold for each key. -/
structure Cached (σ ι κ ν : Type*) where
  store : σ
  may : ι → κ → Set ν

namespace Cached

variable (next : σ → α → σ) (view : σ → κ → Option ν) (drops : σ → α → ι → κ → Prop)

/-- **A write**: what is not dropped may be held on, and what the store
says from now on may be read. -/
def step (c : Cached σ ι κ ν) (a : α) : Cached σ ι κ ν where
  store := next c.store a
  may i k := {v | v ∈ c.may i k ∧ ¬drops c.store a i k ∨ view (next c.store a) k = some v}

/-- **No reader may hold what the store does not say.** -/
def Coherent (c : Cached σ ι κ ν) : Prop :=
  ∀ i k v, v ∈ c.may i k → view c.store k = some v

/-- Whatever the store says, every reader may have read. -/
def Readable (c : Cached σ ι κ ν) : Prop :=
  ∀ i k v, view c.store k = some v → v ∈ c.may i k

/-- **A write is announced** to every reader of what it takes away. -/
def Announced (ι : Type*) (drops : σ → α → ι → κ → Prop) (s : σ) (a : α) : Prop :=
  ∀ (i : ι) k v, view s k = some v → view (next s a) k = some v ∨ drops s a i k

variable {next view drops}

theorem Readable.step (c : Cached σ ι κ ν) (a : α) : Readable view (c.step next view drops a) :=
  fun _ _ _ h => Or.inr h

/-- One write keeps the copies true exactly if it is announced. -/
theorem Coherent.step_iff {c : Cached σ ι κ ν} {a : α} (hr : Readable view c)
    (hc : Coherent view c) :
    Coherent view (c.step next view drops a) ↔ Announced next view ι drops c.store a := by
  constructor
  · intro h i k v hv
    by_cases hd : drops c.store a i k
    · exact Or.inr hd
    · exact Or.inl (h i k v (Or.inl ⟨hr i k v hv, hd⟩))
  · intro h i k v hv
    obtain ⟨hm, hd⟩ | hv := hv
    · exact (h i k v (hc i k v hm)).resolve_right hd
    · exact hv

theorem runFrom_store (c : Cached σ ι κ ν) (as : List α) :
    (runFrom (step next view drops) c as).store = runFrom next c.store as := by
  induction as generalizing c with
  | nil => rfl
  | cons a as ih => exact ih (c.step next view drops a)

/-- **The copies are true in every state of a run exactly if every write
of it is announced**, from a store that nobody has read wrong. -/
theorem coherent_iff_announced {c : Cached σ ι κ ν} {as : List α} (hr : Readable view c)
    (hc : Coherent view c) :
    Allowed next (Announced next view ι drops) c.store as ↔
      ∀ n, Coherent view (runFrom (step next view drops) c (as.take n)) := by
  have hcomap : Allowed (step next view drops) _ c as ↔
      Allowed next (Announced next view ι drops) c.store as :=
    allowed_comap Cached.store (Announced next view ι drops) fun _ _ => rfl
  rw [← hcomap]
  exact (allowed_true _ c as).iff_forall_take (I := Readable view)
    (fun c a _ _ => Readable.step c a) (fun _ _ hr _ hc => hc.step_iff hr) hr hc

end Cached

end Kos
