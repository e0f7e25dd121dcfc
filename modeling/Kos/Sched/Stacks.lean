import Kos.Common.Run
import Kos.Pmm.Model
import Kos.Sched.Create
/-!
# Sched — where the first frame of a thread goes

`process_create` asks for four pages and takes the address `0x10000`
above them for the top of the stack. That is the size `kernel.h` names
for a stack, sixteen pages. The frame is laid out below the top, in a
page that was not asked for; where there are no pages, the top is
`0x10000` itself and the frame is laid out there.
-/

namespace Kos

namespace Sched

open Kmalloc

variable {k : Kernel} {a : CreateArgs} {calls : List CreateArgs} {sp stack x : ℕ}

/-- `KERNEL_STACK_SIZE`. -/
abbrev kernelStackSize : ℕ := pageSize * 16

/-! ## The words of a frame -/

/-- Where words stored below a stack pointer go, the first one first. -/
def pushedAt : ℕ → ℕ → List ℕ
  | _, 0 => []
  | sp, n + 1 => sub64 sp 8 :: pushedAt (sub64 sp 8) n

/-- Storing words writes there and nowhere else. -/
theorem foldl_pushWord_of_not_mem (vs : List ℕ) (mem : ByteMem)
    (hx : ∀ w ∈ pushedAt sp vs.length, ¬ (w ≤ x ∧ x < w + 8)) :
    (vs.foldl pushWord (sp, mem)).2 x = mem x := by
  induction vs generalizing sp mem with
  | nil => rfl
  | cons v vs ih =>
    rw [List.length_cons, pushedAt, List.forall_mem_cons] at hx
    rw [List.foldl_cons, pushWord, ih _ hx.2]
    exact ByteMem.store_of_not_mem hx.1

/-- The stack of a thread: the pages asked for, as they were answered, the
top, and the words of the first frame. -/
structure Stack where
  base : ℕ
  top : ℕ
  words : List ℕ
  deriving DecidableEq, Repr

/-- The stack `process_create` makes of an answer. -/
def newStack (stack : ℕ) : Stack where
  base := stack
  top := add64 stack 0x10000
  words := pushedAt (sub64 (add64 stack 0x10000) 8) 8

/-- The frame of a new thread is written to the words of its stack. -/
theorem initialFrame_of_not_mem (mem : ByteMem) (entry : ℕ)
    (hx : ∀ w ∈ (newStack stack).words, ¬ (w ≤ x ∧ x < w + 8)) :
    (initialFrame mem (newStack stack).top entry).2 x = mem x :=
  foldl_pushWord_of_not_mem [0, entry, 0, 0, 0, 0, 0, 0] mem hx

theorem mem_pushedAt {n w : ℕ} (hsp : sp < 2 ^ 64) (hroom : 8 * n ≤ sp) (hw : w ∈ pushedAt sp n) :
    sp - 8 * n ≤ w ∧ w + 8 ≤ sp := by
  induction n generalizing sp with
  | zero => cases hw
  | succ n ih =>
    have hsub : sub64 sp 8 = sp - 8 := sub64_of_le hsp (by omega)
    rw [pushedAt, hsub] at hw
    rcases List.mem_cons.1 hw with rfl | hw
    · omega
    · have := ih (by omega) (by omega) hw
      omega

/-- **The frame is in the sixteenth page** from where the stack starts. -/
theorem newStack_words (hlt : stack + kernelStackSize < 2 ^ 64) :
    ∀ w ∈ (newStack stack).words, stack + 15 * pageSize ≤ w ∧ w + 8 < stack + kernelStackSize := by
  intro w hw
  simp only [kernelStackSize, pageSize] at hlt ⊢
  have htop : add64 stack 0x10000 = stack + 0x10000 := add64_of_lt hlt
  simp only [newStack, htop] at hw
  rw [sub64_of_le hlt (by omega)] at hw
  have := mem_pushedAt (by omega) (by omega) hw
  omega

/-- So it is in the pages that are asked for three stacks later, where the
allocator goes upwards. -/
theorem newStack_fourth (hlt : stack + kernelStackSize < 2 ^ 64) :
    ∀ w ∈ (newStack stack).words,
      stack + 3 * (4 * pageSize) ≤ w ∧ w + 8 ≤ stack + 3 * (4 * pageSize) + 4 * pageSize := by
  intro w hw
  have := newStack_words hlt w hw
  simp only [kernelStackSize, pageSize] at this ⊢
  omega

/-- **No word of a frame is in the pages of its stack**, wherever these
are. -/
theorem newStack_outside (stack : ℕ) :
    ∀ w ∈ (newStack stack).words, ¬ (stack ≤ w ∧ w + 8 ≤ stack + 4 * pageSize) := by
  intro w hw
  -- the eight words one by one, with the wrap-around of the addresses
  simp only [newStack, pushedAt, List.mem_cons, List.not_mem_nil, or_false, add64, sub64] at hw
  simp only [pageSize]
  omega

/-! ## Runs -/

/-- **One call.** -/
def create (k : Kernel) (a : CreateArgs) : Kernel := (processCreate k a).2

/-- The stacks that the calls of a run make, each with its frame. -/
def stacksMade : Kernel → List CreateArgs → List Stack
  | _, [] => []
  | k, a :: calls =>
    (if (processCreate k a).1 = 0 then [] else [newStack a.stack]) ++ stacksMade (create k a) calls

/-- What else a call is given, as addresses and bytes: the pages that are
split, the page of the address space and the two blocks. -/
def obtained (k : Kernel) (a : CreateArgs) : List (ℕ × ℕ) :=
  (if Splits k.heap processClass a.processPage then [(a.processPage, pageSize)] else []) ++
    if processObject k a = 0 then []
    else
      (processObject k a, headerSize + processSize) ::
        (if a.spacePage = 0 then [] else [(a.spacePage, pageSize)]) ++
        (if Splits k.heap threadClass a.threadPage then [(a.threadPage, pageSize)] else []) ++
        if threadObject k a = 0 then [] else [(threadObject k a, headerSize + threadSize)]

/-- What else the calls of a run are given. -/
def allObtained : Kernel → List CreateArgs → List (ℕ × ℕ)
  | _, [] => []
  | k, a :: calls => obtained k a ++ allObtained (create k a) calls

/-- A frame is off some memory. -/
def Stack.Off (s : Stack) (start bytes : ℕ) : Prop :=
  ∀ w ∈ s.words, w + 8 ≤ start ∨ start + bytes ≤ w

/-- **Frames are where they belong**: each in the pages of its stack, the
top no higher than their end, none without pages, and all of them off
each other and off whatever else was given. -/
structure FramesInside (k : Kernel) (calls : List CreateArgs) : Prop where
  words : ∀ s ∈ stacksMade k calls, ∀ w ∈ s.words, s.base ≤ w ∧ w + 8 ≤ s.base + 4 * pageSize
  top : ∀ s ∈ stacksMade k calls, s.top ≤ s.base + 4 * pageSize
  failed : ∀ s ∈ stacksMade k calls, s.base = 0 → s.words = []
  frames : (stacksMade k calls).Pairwise fun s s' => ∀ w ∈ s'.words, s.Off w 8
  pages : (stacksMade k calls).Pairwise fun s s' =>
    s.Off s'.base (4 * pageSize) ∧ s'.Off s.base (4 * pageSize)
  others : ∀ s ∈ stacksMade k calls, ∀ g ∈ allObtained k calls, s.Off g.1 g.2

theorem mem_stacksMade {s : Stack} (h : s ∈ stacksMade k calls) : ∃ a ∈ calls, s = newStack a.stack := by
  induction calls generalizing k with
  | nil => cases h
  | cons a calls ih =>
    rcases List.mem_append.1 h with h | h
    · split at h
      · cases h
      · exact ⟨a, List.mem_cons_self, List.mem_singleton.1 h⟩
    · obtain ⟨b, hb, hs⟩ := ih h
      exact ⟨b, List.mem_cons_of_mem a hb, hs⟩

/-- A run makes no stack where no call gets both blocks. -/
theorem stacksMade_eq_nil_iff (hsz : Sized k.heap) :
    stacksMade k calls = [] ↔ Allowed create (fun k a => ¬ MakesThread k a) k calls := by
  induction calls generalizing k with
  | nil => exact ⟨fun _ => trivial, fun _ => rfl⟩
  | cons a calls ih =>
    have hsized : Sized (create k a).heap := processCreate_sized hsz
    rw [stacksMade, List.append_eq_nil_iff, Allowed, ih hsized, ← processCreate_ne_zero_iff hsz, not_not]
    refine and_congr_left' ⟨fun h => ?_, fun h => if_pos h⟩
    by_contra hc
    rw [if_neg hc] at h
    cases h

/-- **Frames are where they belong exactly in the runs that make no
thread.** -/
theorem framesInside_iff (hsz : Sized k.heap) :
    FramesInside k calls ↔ Allowed create (fun k a => ¬ MakesThread k a) k calls := by
  rw [← stacksMade_eq_nil_iff hsz]
  constructor
  · intro h
    refine List.eq_nil_iff_forall_not_mem.2 fun s hs => ?_
    obtain ⟨a, -, rfl⟩ := mem_stacksMade hs
    -- the first word of the frame that was written is enough
    have hfirst : sub64 (sub64 (newStack a.stack).top 8) 8 ∈ (newStack a.stack).words :=
      List.mem_cons_self
    exact newStack_outside a.stack _ hfirst (h.words _ hs _ hfirst)
  · intro hnil
    have hnone : ∀ s, s ∉ stacksMade k calls := List.eq_nil_iff_forall_not_mem.1 hnil
    refine ⟨fun s hs => absurd hs (hnone s), fun s hs => absurd hs (hnone s),
      fun s hs => absurd hs (hnone s), ?_, ?_, fun s hs => absurd hs (hnone s)⟩
    · rw [hnil]
      exact List.Pairwise.nil
    · rw [hnil]
      exact List.Pairwise.nil

/-- There is no block for a process, and nothing is written. -/
theorem framesInside_no_block : FramesInside bootKernel [createWith 0 0 0xFFFF800001000000] :=
  (framesInside_iff fun _ => rfl).2 (by decide)

/-! ## Four stacks in a row -/

/-- What `pmm_alloc_pages(4)` answers, call after call. -/
def stackAnswers : ℕ → Pmm.State → List ℕ
  | 0, _ => []
  | n + 1, s => (Pmm.pmmAllocPages s 4).2 :: stackAnswers n (Pmm.pmmAllocPages s 4).1

/-- Sixteen free frames from `0x1000` on. -/
def sixteenFrames : Pmm.State where
  zones
    | .normal => ⟨0x1000, 0x1010, 16, 16, fun _ => 0#64⟩
    | _ => Pmm.emptyZone
  totalSystemPages := 16

/-- Four processes are created, each with a stack the allocator answered. -/
def fourCalls : List CreateArgs :=
  [createWith 0xFFFF800000300000 0xFFFF800000310000 0xFFFF800001000000,
    createWith 0 0 0xFFFF800001004000,
    createWith 0 0xFFFF800000311000 0xFFFF800001008000,
    createWith 0 0 0xFFFF80000100C000]

/-- **The fourth stack is where the first frame is**: the words that are
written for it are in its pages. The first thread's entry is on its frame
until the fourth process is created, whose stack pages are cleared. -/
theorem fourth_stack_clears_first_frame :
    fourCalls.map CreateArgs.stack = stackAnswers 4 sixteenFrames ∧
      (∀ mem x, (∀ w ∈ (newStack 0xFFFF800001000000).words, ¬ (w ≤ x ∧ x < w + 8)) →
        (initialFrame mem (newStack 0xFFFF800001000000).top 0xFFFF800000105000).2 x = mem x) ∧
      (∀ w ∈ (newStack 0xFFFF800001000000).words,
        0xFFFF80000100C000 ≤ w ∧ w + 8 ≤ 0xFFFF80000100C000 + 4 * pageSize) ∧
      (runFrom create bootKernel (fourCalls.take 3)).mem.load 0xFFFF80000100FFE8 8 =
        0xFFFF800000105000 ∧
      (runFrom create bootKernel fourCalls).mem.load 0xFFFF80000100FFE8 8 = 0 ∧
      ¬ FramesInside bootKernel fourCalls := by
  refine ⟨by decide, fun mem x hx => initialFrame_of_not_mem mem _ hx, newStack_fourth (by decide),
    by decide +kernel, by decide +kernel, fun h => ?_⟩
  have hfirst : newStack 0xFFFF800001000000 ∈ stacksMade bootKernel fourCalls :=
    List.mem_append_left _ (by decide +kernel)
  exact absurd (h.top _ hfirst) (by decide)

end Sched

end Kos
