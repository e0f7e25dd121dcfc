import Mathlib.Data.List.Basic
/-!
# Common — what a call does to its buffers

A call asks an allocator for buffers, copies into them and sends
messages. Its effects are recorded in order, so that three things can be
asked of the record: that no copy runs over the buffer it goes into,
that what is sent is right, and that a call which was refused a buffer
stops.
-/

namespace Kos

/-- A request to an allocator and the answer: `0` where it was refused. -/
structure Buffer where
  addr : ℕ
  size : ℕ
  deriving DecidableEq, Repr

/-- An effect of a call; a copy is of `len` bytes to `pos`. -/
inductive Effect (α : Type*)
  | alloc (b : Buffer)
  | copy (b : Buffer) (pos len : ℕ)
  | send (msg : α)

namespace Effect

variable {α : Type*} {P : α → Prop} {b : Buffer} {pos len : ℕ} {msg : α} {e : Effect α}
  {es : List (Effect α)}

/-- A request that was refused. -/
def Refused : Effect α → Prop
  | alloc b => b.addr = 0
  | copy .. => False
  | send _ => False

/-- Something is written or sent. -/
def Acts : Effect α → Prop
  | alloc _ => False
  | copy .. => True
  | send _ => True

/-- **What is asked of a record**, `P` being what is asked of a message. -/
structure Sound (P : α → Prop) (es : List (Effect α)) : Prop where
  within : ∀ b pos len, copy b pos len ∈ es → pos + len ≤ b.size
  messages : ∀ msg, send msg ∈ es → P msg
  stops : es.Pairwise fun e e' => e.Refused → ¬ e'.Acts

@[simp] theorem sound_nil : Sound P ([] : List (Effect α)) :=
  ⟨fun _ _ _ h => absurd h List.not_mem_nil, fun _ h => absurd h List.not_mem_nil, .nil⟩

/-- **A record is asked effect by effect.** -/
theorem sound_cons : Sound P (e :: es) ↔
    ((∀ b pos len, e = copy b pos len → pos + len ≤ b.size) ∧ (∀ msg, e = send msg → P msg) ∧
      (e.Refused → ∀ e' ∈ es, ¬ e'.Acts)) ∧ Sound P es := by
  constructor
  · intro h
    obtain ⟨hhead, htail⟩ := List.pairwise_cons.mp h.stops
    refine ⟨⟨fun b pos len he => h.within b pos len (he ▸ List.mem_cons_self),
      fun msg he => h.messages msg (he ▸ List.mem_cons_self), fun hr e' he' => hhead e' he' hr⟩, ?_⟩
    exact ⟨fun b pos len he => h.within b pos len (List.mem_cons_of_mem _ he),
      fun msg he => h.messages msg (List.mem_cons_of_mem _ he), htail⟩
  · rintro ⟨⟨hwithin, hmessages, hstops⟩, h⟩
    refine ⟨fun b pos len he => ?_, fun msg he => ?_, ?_⟩
    · rcases List.mem_cons.mp he with he | he
      · exact hwithin b pos len he.symm
      · exact h.within b pos len he
    · rcases List.mem_cons.mp he with he | he
      · exact hmessages msg he.symm
      · exact h.messages msg he
    · exact List.pairwise_cons.mpr ⟨fun e' he' hr => hstops hr e' he', h.stops⟩

@[simp] theorem sound_alloc : Sound P (alloc b :: es) ↔
    (b.addr = 0 → ∀ e ∈ es, ¬ e.Acts) ∧ Sound P es := by
  simp [sound_cons, Refused]

@[simp] theorem sound_copy : Sound P (copy b pos len :: es) ↔ pos + len ≤ b.size ∧ Sound P es := by
  simp [sound_cons, Refused]

@[simp] theorem sound_send : Sound P (send msg :: es) ↔ P msg ∧ Sound P es := by
  simp [sound_cons, Refused]

end Effect

end Kos
