import Mathlib.Data.List.Nodup
/-!
# Common — what is touched, and when it is freed

A program reads and writes objects and gives them back. Its accesses are
recorded oldest first. A record is sound if nothing is touched after it
was freed; to be freed is to be touched, so nothing is freed twice. While
a program runs it has a list of objects it may still touch, and freeing
one takes it off the list.
-/

namespace Kos

variable {α : Type*}

/-- An access to an object. -/
inductive Access (α : Type*)
  | read (p : α)
  | write (p : α)
  | free (p : α)

namespace Access

variable {es : List (Access α)} {ps ps' : List α} {p : α} {e : Access α}

/-- The object that is touched. -/
def object : Access α → α
  | read p => p
  | write p => p
  | free p => p

/-- The object that is freed, if one is. -/
def freed : Access α → Option α
  | free p => some p
  | _ => none

/-- The objects that were freed, oldest first. -/
def frees (es : List (Access α)) : List α := es.filterMap freed

/-- **Nothing is touched after it was freed.** -/
def Sound (es : List (Access α)) : Prop := es.Pairwise fun e e' => e.freed ≠ some e'.object

theorem frees_append (es es' : List (Access α)) : frees (es ++ es') = frees es ++ frees es' :=
  List.filterMap_append

theorem sound_nil : Sound ([] : List (Access α)) := .nil

/-- **One access more**: to an object that was not freed. -/
theorem Sound.snoc (h : Sound es) (he : e.object ∉ frees es) : Sound (es ++ [e]) := by
  refine List.pairwise_append.2 ⟨h, List.pairwise_singleton _ _, ?_⟩
  intro e' he' e'' he'' hc
  rw [List.mem_singleton.1 he''] at hc
  exact he (List.mem_filterMap.2 ⟨e', he', hc⟩)

/-- **Nothing is freed twice.** -/
theorem Sound.nodup_frees (h : Sound es) : (frees es).Nodup := by
  refine List.Pairwise.filterMap freed ?_ h
  intro e e' hne p hp p' hp' hpp
  have hobject : p' = e'.object := by
    cases e' with
    | free q => exact (Option.some.inj hp').symm
    | _ => cases hp'
  exact hne (by rw [hp, hpp, hobject])

/-- **The objects that may still be touched.** -/
structure Live (es : List (Access α)) (ps : List α) : Prop where
  sound : Sound es
  nodup : ps.Nodup
  kept : ∀ p ∈ ps, p ∉ frees es

/-- The order of the objects does not matter. -/
theorem Live.perm (h : Live es ps) (hp : ps.Perm ps') : Live es ps' :=
  ⟨h.sound, hp.nodup h.nodup, fun p hin => h.kept p (hp.mem_iff.2 hin)⟩

/-- Reading and writing touch an object that stays. -/
theorem Live.touch (h : Live es ps) (hin : e.object ∈ ps) (he : e.freed = none) :
    Live (es ++ [e]) ps ∧ frees (es ++ [e]) = frees es := by
  have hone : frees [e] = [] := List.filterMap_cons_none he
  have hsame : frees (es ++ [e]) = frees es := by rw [frees_append, hone, List.append_nil]
  refine ⟨⟨h.sound.snoc (h.kept _ hin), h.nodup, ?_⟩, hsame⟩
  rw [hsame]
  exact h.kept

/-- **Freeing takes an object off the list.** -/
theorem Live.free (h : Live es (p :: ps)) :
    Live (es ++ [.free p]) ps ∧ frees (es ++ [.free p]) = frees es ++ [p] := by
  obtain ⟨hp, hps⟩ := List.nodup_cons.1 h.nodup
  have hfrees : frees (es ++ [.free p]) = frees es ++ [p] := frees_append es [.free p]
  refine ⟨⟨h.sound.snoc (h.kept p List.mem_cons_self), hps, ?_⟩, hfrees⟩
  intro q hq hc
  rw [hfrees, List.mem_append, List.mem_singleton] at hc
  rcases hc with hc | rfl
  · exact h.kept q (List.mem_cons_of_mem p hq) hc
  · exact hp hq

end Access

end Kos
