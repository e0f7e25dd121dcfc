import Kos.Kmalloc.Model
import Kos.Common.Chain
import Kos.Common.Run
import Mathlib.Data.List.Pairwise
/-!
# Kmalloc — the heap and what has been handed out

A world is the heap together with two ghosts: the pages obtained from
the page allocator, each with what they were obtained for, and the
blocks handed out and not freed. An object is a slot of a slab page.
Objects never overlap, whatever the run, because pages do not and a slot
is as long as its class. The invariant ties the ghosts to memory: each
free list is a chain of objects that are not live, and every live object
carries its mark and its size.
-/

namespace Kos

namespace Kmalloc

/-! ## The ghosts -/

/-- What pages or a block serve: a size class, or one large request. -/
inductive Use
  | slab (i : Fin 8)
  | large
  deriving DecidableEq, Repr

/-- Pages obtained by one request. -/
structure Region where
  ptr : ℕ
  pages : ℕ
  use : Use
  deriving DecidableEq, Repr

/-- The address after a region. -/
def Region.stop (r : Region) : ℕ := r.ptr + pageSize * r.pages

/-- A block handed out: the pointer and the size asked for. -/
structure Block where
  ptr : ℕ
  size : ℕ
  use : Use
  deriving DecidableEq, Repr

/-- Two blocks of one kind are at different addresses. -/
def Block.Differs (b b' : Block) : Prop := (b.use = .large ↔ b'.use = .large) → b.ptr ≠ b'.ptr

/-- The heap with its ghosts. -/
structure World where
  heap : Heap
  regions : List Region
  live : List Block

/-- The class a request is served from. -/
def useOf (size : ℕ) : Use :=
  match (List.finRange 8).find? fun i => size ≤ sizes i with
  | some i => .slab i
  | none => .large

/-- The calls of a run, with the page allocator's answer where one is
asked for, and the writes of the clients. -/
inductive Op
  | kmalloc (size : UInt64) (answer : ℕ)
  | kzalloc (size : UInt64) (answer : ℕ)
  | kfree (ptr : ℕ)
  | write (addr : ℕ) (byte : UInt8)
  deriving DecidableEq

/-- Record an allocation in the ghosts. -/
def World.record (w : World) (size answer : ℕ) (r : Result) : World where
  heap := r.heap
  regions :=
    match r.request with
    | some pages => if answer = 0 then w.regions else ⟨answer, pages, useOf size⟩ :: w.regions
    | none => w.regions
  live := if r.ptr = 0 then w.live else ⟨r.ptr, size, useOf size⟩ :: w.live

/-- **One step of a run.** -/
def World.step (w : World) : Op → World
  | .kmalloc size answer =>
    w.record size.toNat answer (kmalloc w.heap size.toNat answer)
  | .kzalloc size answer =>
    w.record size.toNat answer (kzalloc w.heap size.toNat answer)
  | .kfree ptr =>
    { w with
      heap := (kfree w.heap ptr).1
      live := w.live.filter fun b => b.ptr ≠ ptr }
  | .write addr byte =>
    { w with heap := { w.heap with mem := Function.update w.heap.mem addr byte } }

/-- The world before the first call. -/
def World.boot (mem : ByteMem) : World where
  heap := Kmalloc.boot mem
  regions := []
  live := []

/-! ## The size classes -/

theorem sizes_ge : ∀ i, 16 ≤ sizes i := by decide

theorem sizes_le : ∀ i, sizes i ≤ kmallocMaxSize := by decide

/-- A page is split without remainder, into at least two objects. -/
theorem sizes_objs : ∀ i, pageSize / sizes i * sizes i = pageSize ∧ 2 ≤ pageSize / sizes i := by
  decide

/-- An object's own size leads back to its class. -/
theorem find_sizes : ∀ i, ((List.finRange 8).find? fun j => sizes i ≤ sizes j) = some i := by
  decide

theorem useOf_slab {size : ℕ} {i : Fin 8} (h : useOf size = .slab i) :
    ((List.finRange 8).find? fun j => size ≤ sizes j) = some i := by
  unfold useOf at h
  split at h
  · rename_i j hj
    rw [hj, Use.slab.inj h]
  · cases h

theorem useOf_large_iff {size : ℕ} : useOf size = .large ↔ kmallocMaxSize < size := by
  unfold useOf
  constructor
  · intro h
    split at h
    · cases h
    · rename_i hnone
      rw [List.find?_eq_none] at hnone
      have hlast := hnone 7 (List.mem_finRange _)
      rw [decide_eq_true_eq, not_le] at hlast
      exact hlast
  · intro hlt
    split
    · rename_i i hi
      have hle := List.find?_some hi
      have := sizes_le i
      simp only [decide_eq_true_eq] at hle
      omega
    · rfl

/-! ## Objects -/

variable {w w' : World} {regions : List Region} {r r' : Region} {i j : Fin 8} {o o' : ℕ}

/-- Regions without a common byte. -/
def Region.Apart (r r' : Region) : Prop := r.stop ≤ r'.ptr ∨ r'.stop ≤ r.ptr

instance : Std.Symm Region.Apart where
  symm _ _ h := h.symm

/-- **The objects of a class**: the slots of its pages. -/
def Object (regions : List Region) (i : Fin 8) (o : ℕ) : Prop :=
  ∃ r ∈ regions, r.use = .slab i ∧ ∃ k < pageSize / sizes i, o = r.ptr + k * sizes i

/-- **The regions a run has obtained**: non-null, below the end of the
address space, apart, and one page for a slab. -/
structure RegionsOk (regions : List Region) : Prop where
  pages_pos : ∀ r ∈ regions, 0 < r.pages
  ptr_ne : ∀ r ∈ regions, r.ptr ≠ 0
  stop_lt : ∀ r ∈ regions, r.stop < 2 ^ 64
  slab_pages : ∀ r ∈ regions, ∀ i, r.use = .slab i → r.pages = 1
  apart : regions.Pairwise Region.Apart

theorem slot_le {k c n : ℕ} (h : k < n) : k * c + c ≤ n * c := by
  calc k * c + c = (k + 1) * c := by rw [Nat.add_mul, Nat.one_mul]
    _ ≤ n * c := Nat.mul_le_mul_right c h

/-- An object lies in the region it was carved from. -/
theorem RegionsOk.object_inside (h : RegionsOk regions) (ho : Object regions i o) :
    ∃ r ∈ regions, r.use = .slab i ∧ r.ptr ≤ o ∧ o + sizes i ≤ r.stop := by
  obtain ⟨r, hr, hu, k, hk, rfl⟩ := ho
  have hslot := slot_le (c := sizes i) hk
  have hobjs := (sizes_objs i).1
  refine ⟨r, hr, hu, by omega, ?_⟩
  rw [Region.stop, h.slab_pages r hr i hu]
  omega

theorem RegionsOk.object_ne_zero (h : RegionsOk regions) (ho : Object regions i o) : o ≠ 0 := by
  obtain ⟨r, hr, -, hle, -⟩ := h.object_inside ho
  have := h.ptr_ne r hr
  omega

theorem RegionsOk.object_lt (h : RegionsOk regions) (ho : Object regions i o) :
    o + sizes i < 2 ^ 64 := by
  obtain ⟨r, hr, -, -, hle⟩ := h.object_inside ho
  have := h.stop_lt r hr
  omega

/-- **Two objects are one or do not overlap.** Slots of one page are
multiples of the class size apart, and pages are apart. -/
theorem RegionsOk.object_apart (h : RegionsOk regions) (ho : Object regions i o)
    (ho' : Object regions j o') :
    (i = j ∧ o = o') ∨ o + sizes i ≤ o' ∨ o' + sizes j ≤ o := by
  obtain ⟨r₁, hr₁, hu₁, hin₁⟩ := h.object_inside ho
  obtain ⟨r₂, hr₂, hu₂, hin₂⟩ := h.object_inside ho'
  obtain ⟨r, hr, hu, k, hk, rfl⟩ := ho
  obtain ⟨r', hr', hu', k', hk', rfl⟩ := ho'
  by_cases hrr : r = r'
  · subst hrr
    obtain rfl : i = j := Use.slab.inj (hu.symm.trans hu')
    rcases Nat.lt_trichotomy k k' with hlt | rfl | hlt
    · have := slot_le (c := sizes i) hlt
      omega
    · exact Or.inl ⟨rfl, rfl⟩
    · have := slot_le (c := sizes i) hlt
      omega
  · have hap : r.Apart r' := h.apart.forall hr hr' hrr
    have h1 := slot_le (c := sizes i) hk
    have h2 := slot_le (c := sizes j) hk'
    have h3 := (sizes_objs i).1
    have h4 := (sizes_objs j).1
    have h5 := h.slab_pages r hr i hu
    have h6 := h.slab_pages r' hr' j hu'
    simp only [Region.Apart, Region.stop, h5, h6] at hap
    omega

end Kmalloc

end Kos
