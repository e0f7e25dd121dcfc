import Kos.Tcp.Advertise
import Kos.Tcp.Steps
/-!
# Tcp — the ports that are chosen

A socket that connects without a port is given `next_port`, which starts
at 49152 and counts up. Nothing looks whether the port is taken, and the
counter goes over to 0. The ports that were chosen keep out of each
other's way until it does; what was bound with `tcp_bind` is in the way
where it was bound.
-/

namespace Kos

namespace Tcp

variable {t : Stack} {sock x : ℕ} {c : Call}

/-! ## The runs -/

/-- `tcp_connect` chooses a port for the socket. -/
def Stack.Chooses (t : Stack) (sock : ℕ) : Prop :=
  sock ≠ 0 ∧ (t.heap sock).state = .closed ∧ (t.heap sock).localPort = 0

instance Stack.Chooses.decidable (t : Stack) (sock : ℕ) : Decidable (t.Chooses sock) :=
  inferInstanceAs (Decidable (_ ∧ _ ∧ _))

/-- The stack, the number of ports chosen so far, and which sockets have
a port from `tcp_bind`. -/
structure Ports where
  stack : Stack
  chosen : ℕ
  bound : ℕ → Bool

/-- One call. -/
def Ports.step (p : Ports) (c : Call) : Ports :=
  match c.op with
  | .socket =>
    { p with
      stack := p.stack.step c
      bound := if (tcpSocket (p.stack.given c.mem)).1 = 0 then p.bound
        else Function.update p.bound (tcpSocket (p.stack.given c.mem)).1 false }
  | .bind sock _ _ =>
    { p with
      stack := p.stack.step c
      bound := if sock = 0 ∨ (p.stack.heap sock).state ≠ .closed then p.bound
        else Function.update p.bound sock true }
  | .connect sock _ _ =>
    if p.stack.Chooses sock then ⟨p.stack.step c, p.chosen + 1, Function.update p.bound sock false⟩
    else { p with stack := p.stack.step c }
  | _ => { p with stack := p.stack.step c }

/-- After `tcp_init`. -/
def Ports.start (heap : ℕ → Socket) (device : Option UInt32) : Ports :=
  ⟨tcpInit heap device, 0, fun _ => false⟩

/-- `tcp_socket`, `tcp_bind`, `tcp_connect`, `tcp_close` and
`tcp_cleanup`. -/
def Op.ofPorts : Op → Bool
  | .socket => true
  | .bind _ _ _ => true
  | .connect _ _ _ => true
  | .close _ => true
  | .cleanup => true
  | _ => false

/-- **The port that is chosen is free**: it is one of those from 49152
on, and no other socket of the list that is not closed has it. -/
def ChoosesFree (p : Ports) (c : Call) : Prop :=
  match c.op with
  | .connect sock _ _ =>
    p.stack.Chooses sock →
      let t := p.stack.step c
      49152 ≤ (t.heap sock).localPort.toNat ∧
        ∀ x ∈ t.sockets, x ≠ sock → (t.heap x).state ≠ .closed →
          (t.heap x).localPort ≠ (t.heap sock).localPort
  | _ => True

/-- **The next port is unclaimed**: fewer than 16384 ports were chosen so
far, and no other socket that is not closed was bound to the next one. -/
def Unclaimed (p : Ports) (c : Call) : Prop :=
  match c.op with
  | .connect sock _ _ =>
    p.stack.Chooses sock → p.chosen < 16384 ∧
      ∀ x ∈ p.stack.sockets, x ≠ sock → p.bound x = true → (p.stack.heap x).state ≠ .closed →
        (p.stack.heap x).localPort.toNat ≠ 49152 + p.chosen
  | _ => True

/-! ## The calls -/

theorem kmalloc_nextPort (t : Stack) : (kmalloc t).2.nextPort = t.nextPort := by
  unfold kmalloc
  split <;> rfl

theorem tcpTx_nextPort (t : Stack) (sock : ℕ) (flags : UInt8) (data : ℕ → UInt8) (len : UInt16) :
    (tcpTx t sock flags data len).nextPort = t.nextPort := by
  simp only [tcpTx]
  split
  · rfl
  · split
    · exact kmalloc_nextPort t
    · exact kmalloc_nextPort t

/-- A socket has a port now; the other sockets and the list stay. -/
structure Gives (t : Stack) (sock : ℕ) (port next : UInt16) (t' : Stack) : Prop where
  other : ∀ x, x ≠ sock → t'.heap x = t.heap x
  sockets : t'.sockets = t.sockets
  port : (t'.heap sock).localPort = port
  next : t'.nextPort = next

theorem Gives.tcpTx {port next : UInt16} {t' : Stack} (h : Gives t sock port next t')
    (flags : UInt8) (data : ℕ → UInt8) (len : UInt16) :
    Gives t sock port next (tcpTx t' sock flags data len) := by
  have happly := tcpTx_heap_apply t' sock flags data len
  refine ⟨fun x hx => ((happly x).1 hx).trans (h.other x hx), ?_, ?_, ?_⟩
  · rw [tcpTx_sockets]
    exact h.sockets
  · obtain ⟨sndNxt, hself⟩ := (happly sock).2
    rw [hself]
    exact h.port
  · rw [tcpTx_nextPort]
    exact h.next

/-- **`tcp_connect` gives the next port** to a socket that has none, and
counts it. -/
theorem gives_connecting (t : Stack) (sock : ℕ) (addr : UInt32) (port : UInt16) :
    Gives t sock (if (t.heap sock).localPort = 0 then t.nextPort else (t.heap sock).localPort)
      (if (t.heap sock).localPort = 0 then t.nextPort + 1 else t.nextPort)
      (connecting t sock addr port) := by
  obtain ⟨hsockets, -, -, -, hnext⟩ := connecting_others t sock addr port
  exact ⟨fun x hx => connecting_of_ne hx addr port, hsockets, by rw [connecting_self]; rfl, hnext⟩

theorem gives_tcpConnect (addr : UInt32) (port : UInt16) (hsock : sock ≠ 0)
    (hclosed : (t.heap sock).state = .closed) :
    Gives t sock (if (t.heap sock).localPort = 0 then t.nextPort else (t.heap sock).localPort)
      (if (t.heap sock).localPort = 0 then t.nextPort + 1 else t.nextPort)
      (tcpConnect t sock addr port).2 := by
  rw [tcpConnect_closed addr port hsock hclosed]
  exact (gives_connecting t sock addr port).tcpTx tcpSyn noData 0

theorem gives_step {addr : UInt32} {port : UInt16} (hop : c.op = .connect sock addr port)
    (hsock : sock ≠ 0) (hclosed : (t.heap sock).state = .closed) :
    Gives t sock (if (t.heap sock).localPort = 0 then t.nextPort else (t.heap sock).localPort)
      (if (t.heap sock).localPort = 0 then t.nextPort + 1 else t.nextPort) (t.step c) := by
  have hstack : t.step c = (tcpConnect (t.given c.mem) sock addr port).2 := by
    simp only [Stack.step, hop]
  have hgives := gives_tcpConnect (t := t.given c.mem) addr port hsock hclosed
  rw [hstack]
  exact ⟨hgives.other, hgives.sockets, hgives.port, hgives.next⟩

/-- The port that is chosen is the next one. -/
theorem Stack.Chooses.gives {addr : UInt32} {port : UInt16} (h : t.Chooses sock)
    (hop : c.op = .connect sock addr port) :
    Gives t sock t.nextPort (t.nextPort + 1) (t.step c) := by
  have hgives := gives_step hop h.1 h.2.1
  rwa [if_pos h.2.2, if_pos h.2.2] at hgives

/-! ## What was chosen keeps out of the way -/

/-- **The invariant of the ports**: the counter has not gone over, and
what was not bound was chosen before it or has no port. -/
structure Ports.Inv (p : Ports) : Prop where
  few : p.chosen ≤ 16384
  next : p.stack.nextPort = UInt16.ofNat (49152 + p.chosen)
  before : ∀ x ∈ p.stack.sockets, p.bound x = false → (p.stack.heap x).localPort = 0 ∨
    (49152 ≤ (p.stack.heap x).localPort.toNat ∧
      (p.stack.heap x).localPort.toNat < 49152 + p.chosen)

theorem Ports.Inv.start (heap : ℕ → Socket) (device : Option UInt32) :
    (Ports.start heap device).Inv :=
  ⟨Nat.zero_le _, rfl, fun _ hx => absurd hx List.not_mem_nil⟩

theorem Ports.Inv.toNat_next {p : Ports} (h : p.Inv) (hlt : p.chosen < 16384) :
    p.stack.nextPort.toNat = 49152 + p.chosen := by
  rw [h.next, UInt16.toNat_ofNat_of_lt' (by simp only [UInt16.size]; omega)]

/-- A call that moves no port and no counter. -/
theorem Ports.Inv.same {p p' : Ports} (h : p.Inv) (hchosen : p'.chosen = p.chosen)
    (hnext : p'.stack.nextPort = p.stack.nextPort)
    (hsockets : ∀ x ∈ p'.stack.sockets, p'.bound x = false → (p'.stack.heap x).localPort = 0 ∨
      (x ∈ p.stack.sockets ∧ p.bound x = false ∧
        (p'.stack.heap x).localPort = (p.stack.heap x).localPort)) : p'.Inv := by
  refine ⟨hchosen ▸ h.few, ?_, fun x hx hbound => ?_⟩
  · rw [hnext, h.next, hchosen]
  · rcases hsockets x hx hbound with hzero | ⟨hin, hfree, hport⟩
    · exact Or.inl hzero
    · rw [hport, hchosen]
      exact h.before x hin hfree

/-- A new socket has no port. -/
theorem Ports.Inv.socket {p : Ports} (h : p.Inv) (hop : c.op = .socket) : (p.step c).Inv := by
  have hstep : p.step c = { p with
      stack := (tcpSocket (p.stack.given c.mem)).2
      bound := if (tcpSocket (p.stack.given c.mem)).1 = 0 then p.bound
        else Function.update p.bound (tcpSocket (p.stack.given c.mem)).1 false } := by
    simp only [Ports.step, Stack.step, hop]
  rw [hstep]
  by_cases hnull : (kmalloc (p.stack.given c.mem)).1.addr = 0
  · have hfail : tcpSocket (p.stack.given c.mem) = (0, (kmalloc (p.stack.given c.mem)).2) := by
      simp only [tcpSocket, if_pos hnull]
    rw [hfail, if_pos rfl]
    refine h.same rfl (kmalloc_nextPort _) fun x hx hbound => Or.inr ⟨?_, hbound, ?_⟩
    · simpa using hx
    · simp only [kmalloc_heap, given_heap]
  · simp only [tcpSocket, if_neg hnull]
    refine h.same rfl ?_ fun x hx hbound => ?_
    · simp only [kmalloc_nextPort]
      rfl
    · by_cases hnew : x = (kmalloc (p.stack.given c.mem)).1.addr
      · simp only [hnew, Function.update_self]
        exact Or.inl rfl
      · simp only [Function.update_of_ne hnew] at hbound ⊢
        simp only [kmalloc_sockets, given_sockets] at hx
        refine Or.inr ⟨(List.mem_cons.mp hx).resolve_left hnew, hbound, ?_⟩
        simp only [kmalloc_heap, given_heap]

/-- A socket that is bound is no longer one that was not. -/
theorem Ports.Inv.bind {p : Ports} (h : p.Inv) {addr : UInt32} {port : UInt16}
    (hop : c.op = .bind sock addr port) : (p.step c).Inv := by
  have hstack : p.stack.step c = (tcpBind (p.stack.given c.mem) sock addr port).2 := by
    simp only [Stack.step, hop]
  by_cases hfail : sock = 0 ∨ (p.stack.heap sock).state ≠ .closed
  · have hset : p.stack.step c = p.stack.given c.mem :=
      hstack.trans (congrArg Prod.snd (if_pos hfail))
    simp only [Ports.step, hop, if_pos hfail, hset]
    exact h.same rfl rfl fun x hx hbound => Or.inr ⟨hx, hbound, rfl⟩
  · have hset : p.stack.step c = (p.stack.given c.mem).modify sock fun s =>
        { s with localAddr := addr, localPort := port } :=
      hstack.trans (congrArg Prod.snd (if_neg hfail))
    simp only [Ports.step, hop, if_neg hfail, hset]
    refine h.same rfl rfl fun x hx hbound => ?_
    have hne : x ≠ sock := by
      rintro rfl
      simp only [Function.update_self, Bool.true_eq_false] at hbound
    simp only [Function.update_of_ne hne] at hbound
    refine Or.inr ⟨hx, hbound, ?_⟩
    simp only [modify_heap, Function.update_of_ne hne, given_heap]

/-- A port that is chosen is before the counter. -/
theorem Ports.Inv.connect {p : Ports} (h : p.Inv) {addr : UInt32} {port : UInt16}
    (hop : c.op = .connect sock addr port) (hfew : p.stack.Chooses sock → p.chosen < 16384) :
    (p.step c).Inv := by
  by_cases hchooses : p.stack.Chooses sock
  · have hlt := hfew hchooses
    have hgives := hchooses.gives hop
    have hnum := h.toNat_next hlt
    have hstep : p.step c =
        ⟨p.stack.step c, p.chosen + 1, Function.update p.bound sock false⟩ := by
      simp only [Ports.step, hop, if_pos hchooses]
    rw [hstep]
    refine ⟨hlt, ?_, fun x hx hbound => ?_⟩
    · rw [hgives.next, h.next]
      exact (UInt16.ofNat_add ..).symm
    · by_cases hself : x = sock
      · right
        simp only [hself, hgives.port, hnum]
        omega
      · simp only [Function.update_of_ne hself] at hbound
        simp only [hgives.sockets] at hx
        simp only [hgives.other x hself]
        rcases h.before x hx hbound with hzero | ⟨hlow, hhigh⟩
        · exact Or.inl hzero
        · exact Or.inr ⟨hlow, by omega⟩
  · have hstep : p.step c = { p with stack := p.stack.step c } := by
      simp only [Ports.step, hop, if_neg hchooses]
    rw [hstep]
    by_cases hfail : sock = 0 ∨ (p.stack.heap sock).state ≠ .closed
    · have hstack : p.stack.step c = (tcpConnect (p.stack.given c.mem) sock addr port).2 := by
        simp only [Stack.step, hop]
      have hsame : p.stack.step c = p.stack.given c.mem :=
        hstack.trans (congrArg Prod.snd (if_pos hfail))
      rw [hsame]
      exact h.same rfl rfl fun x hx hbound => Or.inr ⟨hx, hbound, rfl⟩
    · rw [not_or, not_not] at hfail
      obtain ⟨hsock, hclosed⟩ := hfail
      have hport : (p.stack.heap sock).localPort ≠ 0 := fun hc => hchooses ⟨hsock, hclosed, hc⟩
      have hgives := gives_step hop hsock hclosed
      rw [if_neg hport, if_neg hport] at hgives
      refine h.same rfl hgives.next fun x hx hbound => ?_
      rw [hgives.sockets] at hx
      refine Or.inr ⟨hx, hbound, ?_⟩
      by_cases hself : x = sock
      · rw [hself]
        exact hgives.port
      · exact congrArg Socket.localPort (hgives.other x hself)

theorem tcpClose_nextPort (t : Stack) (sock : ℕ) : (tcpClose t sock).nextPort = t.nextPort := by
  unfold tcpClose
  split
  · rfl
  · split
    · exact tcpTx_nextPort ..
    · exact tcpTx_nextPort ..
    · rfl
    · rfl
    · rfl
    · rfl

/-- **Every call keeps the invariant**, if it finds the next port
unclaimed. -/
theorem Ports.Inv.step {p : Ports} (h : p.Inv) (hop : c.op.ofPorts = true) (hfree : Unclaimed p c) :
    (p.step c).Inv := by
  cases hc : c.op with
  | socket => exact h.socket hc
  | bind sock addr port => exact h.bind hc
  | connect sock addr port =>
    rw [Unclaimed, hc] at hfree
    exact h.connect hc fun hchooses => (hfree hchooses).1
  | close sock =>
    have hstack : p.step c = { p with stack := tcpClose (p.stack.given c.mem) sock } := by
      simp only [Ports.step, Stack.step, hc]
    rw [hstack]
    refine h.same rfl (tcpClose_nextPort ..) fun x hx hbound => ?_
    rw [tcpClose_sockets] at hx
    refine Or.inr ⟨hx, hbound, ?_⟩
    obtain ⟨hother, hself⟩ := tcpClose_heap (p.stack.given c.mem) sock x
    by_cases hne : x = sock
    · subst hne
      rcases hself with hself | ⟨sndNxt, hself⟩
      · rw [hself, given_heap]
      · rw [hself, given_heap]
    · rw [hother hne, given_heap]
  | cleanup =>
    have hstack : p.step c = { p with stack := tcpCleanup (p.stack.given c.mem) } := by
      simp only [Ports.step, Stack.step, hc]
    rw [hstack]
    refine h.same rfl rfl fun x hx hbound => Or.inr ⟨List.mem_of_mem_filter hx, hbound, rfl⟩
  | _ =>
    rw [hc] at hop
    exact Bool.noConfusion hop

/-- **Under the invariant a choice is free exactly if the next port is
unclaimed**: what was chosen before is in nobody's way. -/
theorem choosesFree_iff_unclaimed {p : Ports} (h : p.Inv) (c : Call) :
    ChoosesFree p c ↔ Unclaimed p c := by
  unfold ChoosesFree Unclaimed
  split
  · rename_i sock addr port hop
    refine forall_congr' fun hchooses => ?_
    have hgives := hchooses.gives hop
    simp only
    rw [hgives.port, hgives.sockets]
    rcases Nat.lt_or_ge p.chosen 16384 with hlt | hge
    · have hnum := h.toNat_next hlt
      have hport : ∀ q : UInt16, q ≠ p.stack.nextPort ↔ q.toNat ≠ 49152 + p.chosen := by
        intro q
        rw [← hnum, Ne, Ne, UInt16.toNat_inj]
      refine and_congr (iff_of_true (by omega) hlt) (forall_congr' fun x =>
        forall_congr' fun hx => forall_congr' fun hne => ?_)
      rw [hgives.other x hne, hport]
      constructor
      · intro hfree _ hopen
        exact hfree hopen
      · intro hfree hopen
        cases hbound : p.bound x with
        | true => exact hfree hbound hopen
        | false =>
          rcases h.before x hx hbound with hzero | ⟨-, hhigh⟩
          · rw [hzero]
            exact (Nat.lt_of_lt_of_le (by decide) (Nat.le_add_right 49152 _)).ne
          · exact hhigh.ne
    · -- the counter is at 0
      have hfull : p.chosen = 16384 := Nat.le_antisymm h.few hge
      have hnext : p.stack.nextPort = 0 := by
        rw [h.next, hfull]
        rfl
      rw [hnext]
      exact iff_of_false (fun hc => absurd hc.1 (by decide)) fun hc => absurd hc.1 (by omega)
  · exact Iff.rfl

/-- **When the ports that are chosen are free.** In a run of sockets that
are made, bound, connected, closed and cleaned up, every port that
`tcp_connect` chooses is free exactly if at every choice fewer than
16384 ports were chosen before, and no other socket that is not closed
was bound to the next one. -/
theorem choosesFree_run_iff (heap : ℕ → Socket) (device : Option UInt32) {calls : List Call}
    (hcalls : ∀ c ∈ calls, c.op.ofPorts = true) :
    Allowed Ports.step ChoosesFree (Ports.start heap device) calls ↔
      Allowed Ports.step Unclaimed (Ports.start heap device) calls :=
  Allowed.congr (I := Ports.Inv)
    (fun _ _ h hop hfree => h.step hop ((choosesFree_iff_unclaimed h _).1 hfree))
    (fun _ c h _ => choosesFree_iff_unclaimed h c)
    (allowed_of_forall Ports.step _ hcalls) (Ports.Inv.start heap device)

/-- Two sockets connect without a port, and one that was bound between
them. -/
theorem choosesFree_run_iff_bound_below :
    let block : ℕ → Block := fun addr => ⟨addr, noData⟩
    Allowed Ports.step ChoosesFree (Ports.start (fun _ => .zero) (some 0x0A00020F))
      [⟨.socket, [block 1, block 2, block 3]⟩, ⟨.connect 1 0x0A000202 80, [block 10]⟩,
        ⟨.socket, [block 4, block 5, block 6]⟩, ⟨.bind 4 0 8080, []⟩,
        ⟨.connect 4 0x0A000202 80, [block 10]⟩, ⟨.socket, [block 7, block 8, block 9]⟩,
        ⟨.connect 7 0x0A000202 80, [block 10]⟩] := by
  intro block
  refine (choosesFree_run_iff _ _ (by decide)).2 ?_
  exact ⟨trivial, fun _ => ⟨by decide, by decide⟩, trivial, trivial, fun _ => ⟨by decide, by decide⟩,
    trivial, fun _ => ⟨by decide, by decide⟩, trivial⟩

/-- A socket bound to 49152 is connecting when the first port is chosen. -/
theorem chooses_bound_port :
    let block : ℕ → Block := fun addr => ⟨addr, noData⟩
    let p := runFrom Ports.step (Ports.start (fun _ => .zero) (some 0x0A00020F))
      [⟨.socket, [block 1, block 2, block 3]⟩, ⟨.bind 1 0 49152, []⟩,
        ⟨.connect 1 0x0A000202 80, [block 10]⟩, ⟨.socket, [block 4, block 5, block 6]⟩]
    ¬ ChoosesFree p ⟨.connect 4 0x0A000202 80, [block 10]⟩ := by
  intro block p hfree
  exact (hfree (by decide)).2 1 (by decide) (by decide) (by decide) (by decide)

end Tcp

end Kos
