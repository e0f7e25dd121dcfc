import Kos.Tcp.Steps
import Kos.Tcp.Stream
/-!
# Tcp — bytes that were received and not read

What `tcp_rx` has stored and acknowledged is for the application to
read. It stays in the buffer whatever happens; but `tcp_recv` only looks
there in two states, and an acknowledgement that arrives after the end
of the stream moves the socket out of them, with what was not read. If
the socket then connects again, the bytes of the old connection are read
on the new one.
-/

namespace Kos

namespace Tcp

variable {t : Stack} {sock : ℕ} {c : Call} {s : Socket} {tcp : TcpHeader} {payload : ℕ → UInt8}
  {len : UInt16}

/-- The bytes a call stores for a socket. -/
def Stack.stores (t : Stack) (sock : ℕ) : Op → List UInt8
  | .rx tcp payload len =>
    if t.lookup tcp.dstPort tcp.srcPort = some sock ∧ (t.heap sock).state = .established then
      (List.range ((t.heap sock).taken tcp len)).map payload
    else []
  | _ => []

/-- The bytes a call returns from a socket. -/
def Stack.returns (t : Stack) (sock : ℕ) : Op → List UInt8
  | .recv x len => if x = sock then (tcpRecv t sock len).1.getD [] else []
  | _ => []

/-- The stack, and the bytes of one socket that were stored and not yet
returned. -/
structure Inbox where
  stack : Stack
  unread : List UInt8

/-- One call. A socket that is not in the list has received nothing. -/
def Inbox.step (sock : ℕ) (i : Inbox) (c : Call) : Inbox :=
  ⟨i.stack.step c,
    if sock ∈ (i.stack.step c).sockets then
      (i.unread ++ i.stack.stores sock c.op).drop (i.stack.returns sock c.op).length
    else []⟩

/-- **What was not read can be read**: `tcp_recv` returns the oldest of
it. -/
def Readable (sock : ℕ) (i : Inbox) : Prop :=
  sock ∈ i.stack.sockets → i.unread ≠ [] →
    ∀ len, (tcpRecv i.stack sock len).1 = some (i.unread.take len.toNat)

/-- The application closes the socket. -/
def Op.closes (sock : ℕ) : Op → Bool
  | .close x => x == sock
  | _ => false

/-- **No acknowledgement arrives after the end of the stream** while
something has not been read. -/
def Spared (sock : ℕ) (i : Inbox) (c : Call) : Prop :=
  match c.op with
  | .rx tcp _ _ =>
    i.stack.lookup tcp.dstPort tcp.srcPort = some sock → (i.stack.heap sock).state = .closeWait →
      hasFlag tcp.flags tcpAck = true → i.unread = []
  | _ => True

/-! ## The queue -/

/-- The same receive buffer holds the same queue. -/
theorem Socket.SameRx.queue {s' : Socket} (h : s.SameRx s') :
    s'.avail = s.avail ∧ s'.queue = s.queue := by
  have havail : s'.avail = s.avail := by rw [Socket.avail, Socket.avail, h.2.1, h.2.2]
  refine ⟨havail, ?_⟩
  rw [Socket.queue, Socket.queue, havail, h.1, h.2.1]

/-- A segment leaves the receive buffer, if the connection is not
established. -/
theorem receive_sameRx (hs : s.state ≠ .established) (tcp : TcpHeader) (payload : ℕ → UInt8)
    (len : UInt16) : s.SameRx (s.receive tcp payload len) := by
  unfold Socket.receive
  cases hstate : s.state with
  | established => exact absurd hstate hs
  | synSent =>
    simp only
    split
    · split <;> exact ⟨rfl, rfl, rfl⟩
    · exact ⟨rfl, rfl, rfl⟩
  | synRecv => simp only; split <;> exact ⟨rfl, rfl, rfl⟩
  | closeWait => simp only; split <;> exact ⟨rfl, rfl, rfl⟩
  | lastAck => simp only; split <;> exact ⟨rfl, rfl, rfl⟩
  | _ => exact ⟨rfl, rfl, rfl⟩

/-- **A segment adds to the queue what it stores**, and nothing else
happens to it. -/
theorem receive_queue (h : s.avail ≤ 65536) (tcp : TcpHeader) (payload : ℕ → UInt8)
    (len : UInt16) :
    (s.receive tcp payload len).avail ≤ 65536 ∧
      (s.receive tcp payload len).queue = s.queue ++
        if s.state = .established then (List.range (s.taken tcp len)).map payload else [] := by
  -- only the middle one of the three parts of an established segment stores bytes
  by_cases hs : s.state = .established
  · have hack : (s.takeAck tcp).avail = s.avail ∧ (s.takeAck tcp).queue = s.queue ∧
        (s.takeAck tcp).taken tcp len = s.taken tcp len := by
      unfold Socket.takeAck
      split <;> exact ⟨rfl, rfl, rfl⟩
    have hfin : ∀ s₁ : Socket, (s₁.takeFin tcp).avail = s₁.avail ∧
        (s₁.takeFin tcp).queue = s₁.queue := by
      intro s₁
      unfold Socket.takeFin
      split <;> exact ⟨rfl, rfl⟩
    have hdata : ∀ s₁ : Socket, s₁.avail ≤ 65536 → (s₁.takeData tcp payload len).avail ≤ 65536 ∧
        (s₁.takeData tcp payload len).queue =
          s₁.queue ++ (List.range (s₁.taken tcp len)).map payload := by
      intro s₁ h₁
      have hnil : s₁.queue = s₁.queue ++ (List.range 0).map payload := (List.append_nil _).symm
      unfold Socket.takeData
      split
      · rename_i hpos
        split
        · rename_i hseq
          obtain ⟨havail, hqueue⟩ := store_queue payload len h₁
          rw [Socket.taken, if_pos ⟨hpos, hseq⟩]
          exact ⟨by omega, hqueue⟩
        · rename_i hseq
          rw [Socket.taken, if_neg fun hc => hseq hc.2]
          exact ⟨h₁, hnil⟩
      · rename_i hpos
        rw [Socket.taken, if_neg fun hc => hpos hc.1]
        exact ⟨h₁, hnil⟩
    have hreceive := Socket.receive_of_established hs tcp payload len
    obtain ⟨havail, hqueue⟩ := hdata (s.takeAck tcp) (by rw [hack.1]; exact h)
    rw [hreceive, (hfin _).1, (hfin _).2, hqueue, hack.2.1, hack.2.2, if_pos hs]
    exact ⟨havail, rfl⟩
  · obtain ⟨havail, hqueue⟩ := (receive_sameRx hs tcp payload len).queue
    rw [if_neg hs, List.append_nil, havail, hqueue]
    exact ⟨h, rfl⟩

theorem tick_sameRx (n : ℕ) (s : Socket) : s.SameRx (Socket.tick^[n] s) := by
  obtain ⟨state, timer, heq, -⟩ := tick_iterate n s
  rw [heq]
  exact ⟨rfl, rfl, rfl⟩

/-- A call that neither reads from a socket nor brings it a segment
leaves the receive buffer. -/
theorem Moves.sameRx {op : Op} (h : Moves t sock op s) (hrecv : ∀ len, op ≠ .recv sock len)
    (hrx : ∀ tcp payload len, op = .rx tcp payload len →
      ¬ (t.lookup tcp.dstPort tcp.srcPort = some sock ∧ (t.heap sock).state ≠ .listen)) :
    (t.heap sock).SameRx s := by
  cases h with
  | same => exact ⟨rfl, rfl, rfl⟩
  | bind => exact ⟨rfl, rfl, rfl⟩
  | listen => exact ⟨rfl, rfl, rfl⟩
  | connect _ _ _ _ _ hsame => exact hsame
  | send => exact ⟨rfl, rfl, rfl⟩
  | recv len => exact absurd rfl (hrecv len)
  | close => exact ⟨rfl, rfl, rfl⟩
  | tick n => exact tick_sameRx n _
  | rx tcp payload len hfound hs => exact absurd ⟨hfound, hs⟩ (hrx tcp payload len rfl)

theorem tcpRecv_fst (t : Stack) (sock : ℕ) (len : UInt16) :
    (tcpRecv t sock len).1 =
      if sock = 0 then none
      else if (t.heap sock).state ≠ .established ∧ (t.heap sock).state ≠ .closeWait then none
      else if (t.heap sock).rxTail - (t.heap sock).rxHead = 0 then some []
      else some ((t.heap sock).fetch len).1 := by
  unfold tcpRecv
  split
  · rfl
  · split
    · rfl
    · split <;> rfl

theorem tcpRecv_given (t : Stack) (mem : List Block) (sock : ℕ) (len : UInt16) :
    (tcpRecv (t.given mem) sock len).1 = (tcpRecv t sock len).1 :=
  (tcpRecv_fst (t.given mem) sock len).trans (tcpRecv_fst t sock len).symm

/-- **A call moves the queue of a socket of the list** by what it returns
from it and stores in it. -/
theorem step_queue (h : Fresh t c) (hin : sock ∈ t.sockets) (havail : (t.heap sock).avail ≤ 65536) :
    ((t.step c).heap sock).avail ≤ 65536 ∧
      t.returns sock c.op ++ ((t.step c).heap sock).queue =
        (t.heap sock).queue ++ t.stores sock c.op := by
  have hmoves := step_moves h hin
  -- a call that neither returns nor stores
  have hsame : (t.heap sock).SameRx ((t.step c).heap sock) → t.returns sock c.op = [] →
      t.stores sock c.op = [] → ((t.step c).heap sock).avail ≤ 65536 ∧
      t.returns sock c.op ++ ((t.step c).heap sock).queue =
        (t.heap sock).queue ++ t.stores sock c.op := by
    intro hrx hreturns hstores
    rw [hreturns, hstores, hrx.queue.1, hrx.queue.2, List.append_nil]
    exact ⟨havail, rfl⟩
  cases hop : c.op with
  | rx tcp payload len =>
    have hstep : t.step c = tcpRx (t.given c.mem) tcp payload len := by rw [Stack.step, hop]
    by_cases hfound : t.lookup tcp.dstPort tcp.srcPort = some sock ∧ (t.heap sock).state ≠ .listen
    · have hself : (t.step c).heap sock = (t.heap sock).receive tcp payload len := by
        rw [hstep, tcpRx_heap (t := t.given c.mem) payload len hfound.1 hfound.2, Function.update_self,
          given_heap]
      obtain ⟨havail', hqueue⟩ := receive_queue havail tcp payload len
      rw [hself, hqueue]
      refine ⟨havail', ?_⟩
      simp only [Stack.returns, Stack.stores, hfound.1, true_and, List.nil_append]
    · rw [hop] at hmoves hsame
      refine hsame (hmoves.sameRx (fun _ => Op.noConfusion) ?_) rfl ?_
      · rintro _ _ _ ⟨⟩
        exact hfound
      · refine if_neg fun hc => hfound ⟨hc.1, ?_⟩
        rw [hc.2]
        exact TcpState.noConfusion
  | recv x len =>
    have hstep : t.step c = (tcpRecv (t.given c.mem) x len).2 := by rw [Stack.step, hop]
    by_cases hx : x = sock
    · subst hx
      obtain ⟨hqueue, havail', -⟩ := tcpRecv_self (t.given c.mem) x len
      rw [hstep]
      refine ⟨havail'.trans havail, ?_⟩
      rw [tcpRecv_given] at hqueue
      simp only [Stack.returns, if_true, Stack.stores, List.append_nil]
      exact hqueue
    · rw [hop] at hmoves hsame
      refine hsame (hmoves.sameRx ?_ fun _ _ _ => Op.noConfusion) (if_neg hx) rfl
      rintro _ ⟨⟩
      exact hx rfl
  | _ =>
    rw [hop] at hmoves hsame
    exact hsame (hmoves.sameRx (fun _ => Op.noConfusion) fun _ _ _ => Op.noConfusion) rfl rfl

/-- **The invariant of an inbox**: what was not read is what is queued. -/
structure Inbox.Inv (sock : ℕ) (i : Inbox) : Prop where
  outside : sock ∉ i.stack.sockets → i.unread = []
  nonzero : sock ∈ i.stack.sockets → sock ≠ 0
  avail : sock ∈ i.stack.sockets → (i.stack.heap sock).avail ≤ 65536
  queue : sock ∈ i.stack.sockets → (i.stack.heap sock).queue = i.unread

/-- A new socket has received nothing. -/
theorem queue_created (hnew : sock ∉ t.sockets) (hin : sock ∈ (t.step c).sockets) :
    ((t.step c).heap sock).avail = 0 ∧ ((t.step c).heap sock).queue = [] ∧
      t.returns sock c.op = [] ∧ t.stores sock c.op = [] := by
  obtain ⟨-, -, hhead, htail, hop⟩ := step_created hnew hin
  have havail : ((t.step c).heap sock).avail = 0 := by
    rw [Socket.avail, hhead, htail]
    rfl
  refine ⟨havail, ?_, ?_, ?_⟩
  · rw [← List.length_eq_zero_iff, length_queue, havail]
  · rcases hop with hop | ⟨tcp, payload, len, hop⟩ <;> rw [hop] <;> rfl
  · rcases hop with hop | ⟨tcp, payload, len, hop⟩
    · rw [hop]
      rfl
    · rw [hop]
      exact if_neg fun hc => hnew (List.mem_of_find?_eq_some hc.1)

/-- **A call keeps the invariant.** -/
theorem Inbox.Inv.step {i : Inbox} (h : i.Inv sock) (hfresh : Fresh i.stack c) :
    (i.step sock c).Inv sock := by
  by_cases hin' : sock ∈ (i.stack.step c).sockets
  · have hunread : (i.step sock c).unread =
        (i.unread ++ i.stack.stores sock c.op).drop (i.stack.returns sock c.op).length := if_pos hin'
    -- a socket that goes on, or one that this call made
    by_cases hin : sock ∈ i.stack.sockets
    · obtain ⟨havail, hqueue⟩ := step_queue hfresh hin (h.avail hin)
      refine ⟨fun hout => absurd hin' hout, fun _ => h.nonzero hin, fun _ => havail, fun _ => ?_⟩
      rw [hunread, ← h.queue hin, ← hqueue, List.drop_left]
      rfl
    · obtain ⟨havail, hqueue, hreturns, hstores⟩ := queue_created hin hin'
      refine ⟨fun hout => absurd hin' hout, fun _ => (step_created hin hin').1,
        fun _ => havail.trans_le (Nat.zero_le _), fun _ => ?_⟩
      rw [hunread, h.outside hin, hreturns, hstores]
      exact hqueue
  · have hunread : (i.step sock c).unread = [] := if_neg hin'
    exact ⟨fun _ => hunread, fun hin => absurd hin hin', fun hin => absurd hin hin',
      fun hin => absurd hin hin'⟩

/-! ## Bytes that stay readable -/

/-- A connection that is open for reading. -/
def Socket.Reads (s : Socket) : Prop := s.state = .established ∨ s.state = .closeWait

/-- **What was not read can be read** exactly if there is nothing of it,
or the connection is open for reading. -/
theorem Inbox.Inv.readable_iff {i : Inbox} (h : i.Inv sock) :
    Readable sock i ↔
      (sock ∈ i.stack.sockets → i.unread = [] ∨ (i.stack.heap sock).Reads) := by
  constructor
  · intro hread hin
    by_cases hempty : i.unread = []
    · exact Or.inl hempty
    -- reading no bytes tells whether the state lets read at all
    · have hzero := hread hin hempty 0
      refine Or.inr ?_
      by_contra hno
      rw [Socket.Reads, not_or] at hno
      have hfail : (tcpRecv i.stack sock 0).1 = none := by
        simp only [tcpRecv, if_neg (h.nonzero hin), if_pos hno]
      rw [hfail] at hzero
      exact absurd hzero.symm (Option.some_ne_none _)
  · intro hopen hin hne len
    have hreads := (hopen hin).resolve_left hne
    rw [tcpRecv_open (h.nonzero hin) hreads, h.queue hin]

/-- **A segment moves a socket that reads**: it goes on reading, unless
the end of the stream was there and it brings an acknowledgement. -/
theorem receive_reads (h : s.Reads) (tcp : TcpHeader) (payload : ℕ → UInt8) (len : UInt16) :
    (s.receive tcp payload len).Reads ↔
      ¬ (s.state = .closeWait ∧ hasFlag tcp.flags tcpAck = true) := by
  rcases h with hs | hs
  · have hne : ¬ (s.state = .closeWait ∧ hasFlag tcp.flags tcpAck = true) := by
      rintro ⟨hc, -⟩
      exact absurd (hs.symm.trans hc) TcpState.noConfusion
    refine iff_of_true ?_ hne
    have hstate : ((s.takeAck tcp).takeData tcp payload len).state = .established := by
      rw [((s.takeAck tcp).take_ports tcp payload len).2.1.2.2,
        (s.take_ports tcp payload len).1.2.2, hs]
    have hreceive := Socket.receive_of_established hs tcp payload len
    rw [hreceive, Socket.takeFin]
    split
    · exact Or.inr rfl
    · exact Or.inl hstate
  -- in `CLOSE_WAIT` any ACK closes the connection, whatever is unread
  · cases hflag : hasFlag tcp.flags tcpAck with
    | false =>
      have hself : s.receive tcp payload len = s := by simp [Socket.receive, hs, hflag]
      rw [hself]
      exact iff_of_true (Or.inr hs) fun hc => Bool.noConfusion hc.2
    | true =>
      have hclosed : (s.receive tcp payload len).state = .closed := by
        simp [Socket.receive, hs, hflag]
      rw [Socket.Reads, hclosed]
      refine iff_of_false ?_ fun hc => hc ⟨hs, rfl⟩
      rintro (hc | hc) <;> exact TcpState.noConfusion hc

theorem tick_reads (n : ℕ) (h : s.Reads) : (Socket.tick^[n] s).Reads := by
  have hself : s.tick = s := by
    refine if_neg fun hc => ?_
    rcases h with hs | hs <;> exact absurd (hs.symm.trans hc) TcpState.noConfusion
  rw [Function.iterate_fixed hself]
  exact h

/-- **A call other than `tcp_close` leaves a socket reading**, unless it
is the acknowledgement after the end of the stream. -/
theorem Moves.reads {op : Op} (h : Moves t sock op s) (hreads : (t.heap sock).Reads)
    (hclose : op.closes sock = false)
    (hack : ∀ tcp payload len, op = .rx tcp payload len →
      t.lookup tcp.dstPort tcp.srcPort = some sock → (t.heap sock).state = .closeWait →
      hasFlag tcp.flags tcpAck = false) : s.Reads := by
  have hclosed : (t.heap sock).state ≠ .closed := by
    rcases hreads with hs | hs <;> rw [hs] <;> exact TcpState.noConfusion
  cases h with
  | same => exact hreads
  | bind _ _ hc => exact absurd hc hclosed
  | listen hc => exact absurd hc hclosed
  | connect _ _ _ hc => exact absurd hc hclosed
  | send => exact hreads
  | recv => exact hreads
  | close => exact absurd hclose (by simp [Op.closes])
  | tick n => exact tick_reads n hreads
  | rx tcp payload len hfound hs =>
    refine (receive_reads hreads tcp payload len).mpr fun hc => ?_
    have := hack tcp payload len rfl hfound hc.1
    rw [hc.2] at this
    exact Bool.noConfusion this

/-- What a socket that does not read has not read, it was not given
either. -/
theorem stores_of_not_reads (h : ¬ (t.heap sock).Reads) (op : Op) : t.stores sock op = [] := by
  cases op with
  | rx tcp payload len => exact if_neg fun hc => h (Or.inl hc.2)
  | _ => rfl

/-- The segment is an acknowledgement after the end of the stream. -/
def Stack.LateAck (t : Stack) (sock : ℕ) (op : Op) : Prop :=
  ∃ tcp payload len, op = .rx tcp payload len ∧ t.lookup tcp.dstPort tcp.srcPort = some sock ∧
    (t.heap sock).state = .closeWait ∧ hasFlag tcp.flags tcpAck = true

theorem spared_of_not_lateAck {i : Inbox} (h : ¬ i.stack.LateAck sock c.op) : Spared sock i c := by
  unfold Spared
  split
  · rename_i tcp payload len hop
    exact fun hfound hs hack => absurd ⟨tcp, payload, len, hop, hfound, hs, hack⟩ h
  · trivial

/-- **The acknowledgement after the end of the stream** closes the socket
and leaves what was not read. -/
theorem lateAck_step {i : Inbox} (h : i.stack.LateAck sock c.op) :
    sock ∈ i.stack.sockets ∧ sock ∈ (i.stack.step c).sockets ∧
      ¬ ((i.stack.step c).heap sock).Reads ∧ (i.step sock c).unread = i.unread ∧
      (Spared sock i c ↔ i.unread = []) := by
  obtain ⟨tcp, payload, len, hop, hfound, hs, hack⟩ := h
  have hin : sock ∈ i.stack.sockets := List.mem_of_find?_eq_some hfound
  have hlisten : (i.stack.heap sock).state ≠ .listen := by
    rw [hs]
    exact TcpState.noConfusion
  have hstep : i.stack.step c = tcpRx (i.stack.given c.mem) tcp payload len := by rw [Stack.step, hop]
  have hin' : sock ∈ (i.stack.step c).sockets := by
    rw [hstep, tcpRx_sockets (t := i.stack.given c.mem) payload len hfound hlisten]
    exact hin
  have hself : (i.stack.step c).heap sock = { i.stack.heap sock with state := .closed } := by
    rw [hstep, tcpRx_heap (t := i.stack.given c.mem) payload len hfound hlisten, Function.update_self,
      given_heap]
    simp only [Socket.receive, hs, hack, if_true]
  refine ⟨hin, hin', ?_, ?_, ?_⟩
  · rw [hself]
    rintro (hc | hc) <;> exact TcpState.noConfusion hc
  · have hstores : i.stack.stores sock c.op = [] := by
      rw [hop]
      refine if_neg fun hc => ?_
      exact absurd (hs.symm.trans hc.2) TcpState.noConfusion
    have hreturns : i.stack.returns sock c.op = [] := by rw [hop]; rfl
    simp only [Inbox.step, if_pos hin', hstores, hreturns, List.append_nil, List.length_nil,
      List.drop_zero]
  · simp only [Spared, hop, hfound, hs, hack, forall_const]

/-- **One call**: what was not read stays readable exactly if no
acknowledgement arrives after the end of the stream. -/
theorem readable_step {i : Inbox} (h : i.Inv sock) (hfresh : Fresh i.stack c)
    (hclose : c.op.closes sock = false) (hread : Readable sock i) :
    Readable sock (i.step sock c) ↔ Spared sock i c := by
  rw [h.readable_iff] at hread
  rw [(h.step hfresh).readable_iff]
  change (sock ∈ (i.stack.step c).sockets → (i.step sock c).unread = [] ∨
    ((i.stack.step c).heap sock).Reads) ↔ _
  by_cases hlate : i.stack.LateAck sock c.op
  · obtain ⟨hin, hin', hover, hunread, hspared⟩ := lateAck_step hlate
    rw [hspared, hunread]
    exact ⟨fun hr => (hr hin').resolve_right hover, fun hr _ => Or.inl hr⟩
  · refine iff_of_true (fun hin' => ?_) (spared_of_not_lateAck hlate)
    have hunread : (i.step sock c).unread =
        (i.unread ++ i.stack.stores sock c.op).drop (i.stack.returns sock c.op).length := if_pos hin'
    by_cases hin : sock ∈ i.stack.sockets
    · by_cases hreads : (i.stack.heap sock).Reads
      · refine Or.inr ((step_moves hfresh hin).reads hreads hclose ?_)
        intro tcp payload len hop hfound hs
        rw [← Bool.not_eq_true]
        exact fun hack => hlate ⟨tcp, payload, len, hop, hfound, hs, hack⟩
      · -- nothing was there, and nothing comes
        have hnil := (hread hin).resolve_right hreads
        rw [hunread, hnil, stores_of_not_reads hreads, List.nil_append, List.drop_nil]
        exact Or.inl rfl
    · obtain ⟨-, -, hreturns, hstores⟩ := queue_created hin hin'
      rw [hunread, h.outside hin, hreturns, hstores]
      exact Or.inl rfl

/-- **When everything received can be read.** For every socket and every
run in which the application does not close it: exactly if no
acknowledgement arrives after the end of the stream while something has
not been read. -/
theorem readable_iff_spared {heap : ℕ → Socket} {device : Option UInt32} {calls : List Call}
    (h : Allowed Stack.step (fun t c => Fresh t c ∧ c.op.closes sock = false) (tcpInit heap device)
      calls) :
    let i : Inbox := ⟨tcpInit heap device, []⟩
    Allowed (Inbox.step sock) (Spared sock) i calls ↔
      ∀ k, Readable sock (runFrom (Inbox.step sock) i (calls.take k)) := by
  intro i
  have hrun : Allowed (Inbox.step sock) (fun i c => Fresh i.stack c ∧ c.op.closes sock = false) i calls :=
    (allowed_comap Inbox.stack (fun t c => Fresh t c ∧ c.op.closes sock = false) fun _ _ => rfl).mpr h
  have hempty : sock ∉ i.stack.sockets := List.not_mem_nil
  refine hrun.iff_forall_take (I := Inbox.Inv sock) (P := Readable sock)
    (fun _ _ hi hc => hi.step hc.1) (fun _ _ hi hc hread => readable_step hi hc.1 hc.2 hread) ?_ ?_
  · exact ⟨fun _ => rfl, fun hin => absurd hin hempty, fun hin => absurd hin hempty,
      fun hin => absurd hin hempty⟩
  · exact fun hin => absurd hin hempty

/-- A connection that receives two bytes and the end of the stream, and
is read before the acknowledgement that follows. -/
theorem readable_read_in_time :
    let blocks (l : List ℕ) : List Block := l.map fun a => ⟨a, noData⟩
    let rx (seq : UInt32) (flags : UInt8) (len : UInt16) : Call :=
      ⟨.rx ⟨80, 49152, seq, 0x12345679, 5, flags, 0, 0, 0⟩ (fun i => UInt8.ofNat (i + 1)) len,
        blocks [4]⟩
    let calls : List Call :=
      [⟨.socket, blocks [1, 2, 3]⟩, ⟨.connect 1 0xC0A80005 80, blocks [4]⟩,
        rx 1000 (tcpSyn ||| tcpAck) 0, rx 1001 tcpAck 2, rx 1003 (tcpFin ||| tcpAck) 0,
        ⟨.recv 1 2, []⟩, rx 1004 tcpAck 0]
    let i : Inbox := ⟨tcpInit (fun _ => Socket.zero) none, []⟩
    Allowed (Inbox.step 1) (Spared 1) i calls ↔
      ∀ k, Readable 1 (runFrom (Inbox.step 1) i (calls.take k)) :=
  readable_iff_spared (by decide +kernel)

/-- The same connection, read after the acknowledgement: there is nothing
to be read any more. -/
theorem late_ack_hides_bytes :
    let blocks (l : List ℕ) : List Block := l.map fun a => ⟨a, noData⟩
    let rx (seq : UInt32) (flags : UInt8) (len : UInt16) : Call :=
      ⟨.rx ⟨80, 49152, seq, 0x12345679, 5, flags, 0, 0, 0⟩ (fun i => UInt8.ofNat (i + 1)) len,
        blocks [4]⟩
    let calls : List Call :=
      [⟨.socket, blocks [1, 2, 3]⟩, ⟨.connect 1 0xC0A80005 80, blocks [4]⟩,
        rx 1000 (tcpSyn ||| tcpAck) 0, rx 1001 tcpAck 2, rx 1003 (tcpFin ||| tcpAck) 0,
        rx 1004 tcpAck 0]
    let i := runFrom (Inbox.step 1) ⟨tcpInit (fun _ => Socket.zero) none, []⟩ calls
    Allowed Stack.step (fun t c => Fresh t c ∧ c.op.closes 1 = false)
        (tcpInit (fun _ => Socket.zero) none) calls ∧
      i.unread = [1, 2] ∧ (tcpRecv i.stack 1 2).1 = none ∧ ¬ Readable 1 i := by
  refine ⟨by decide +kernel, by decide +kernel, by decide +kernel, fun h => ?_⟩
  exact absurd (h (by decide +kernel) (by decide +kernel) 2) (by decide +kernel)

/-! ## A socket that connects again -/

/-- A call makes the socket established. -/
def Opens (sock : ℕ) (t t' : Stack) : Prop :=
  (t.heap sock).state ≠ .established ∧ (t'.heap sock).state = .established

instance Opens.decidable (sock : ℕ) (t t' : Stack) : Decidable (Opens sock t t') :=
  inferInstanceAs (Decidable (_ ∧ _))

/-- One call, where only what the present connection received counts. -/
def Inbox.reopen (sock : ℕ) (i : Inbox) (c : Call) : Inbox :=
  ⟨i.stack.step c,
    if Opens sock i.stack (i.stack.step c) then [] else (i.step sock c).unread⟩

/-- **A connection opens with an empty receive buffer.** -/
def OpensEmpty (sock : ℕ) (i : Inbox) (c : Call) : Prop :=
  sock ∈ (i.stack.step c).sockets → Opens sock i.stack (i.stack.step c) →
    ((i.stack.step c).heap sock).rxHead = ((i.stack.step c).heap sock).rxTail

/-- **What `tcp_recv` returns was received on the present connection.** -/
def ReadsOwn (sock : ℕ) (i : Inbox) : Prop :=
  sock ∈ i.stack.sockets → ∀ len bytes, (tcpRecv i.stack sock len).1 = some bytes →
    bytes = i.unread.take len.toNat

/-- **A socket connects with an empty receive buffer.** -/
def Drained (sock : ℕ) (i : Inbox) (c : Call) : Prop :=
  match c.op with
  | .connect x _ _ =>
    x = sock → (i.stack.heap sock).state = .closed →
      (i.stack.heap sock).rxHead = (i.stack.heap sock).rxTail
  | _ => True

/-- A connection that is being opened. -/
def Socket.Opening (s : Socket) : Prop := s.state = .synSent ∨ s.state = .synRecv

/-- **A segment opens a connection** only if that was being opened, and
does not make it be opened. -/
theorem receive_opening (hs : s.state ≠ .established) (tcp : TcpHeader) (payload : ℕ → UInt8)
    (len : UInt16) (h : (s.receive tcp payload len).state = .established ∨
      (s.receive tcp payload len).Opening) : s.Opening := by
  by_contra hno
  rw [Socket.Opening, not_or] at hno
  -- outside the handshake a segment leaves the state or closes
  have hstate : (s.receive tcp payload len).state = s.state ∨
      (s.receive tcp payload len).state = .closed := by
    unfold Socket.receive
    cases hst : s.state with
    | established => exact absurd hst hs
    | synSent => exact absurd hst hno.1
    | synRecv => exact absurd hst hno.2
    | closeWait =>
      simp only
      split
      · exact Or.inr rfl
      · exact Or.inl hst
    | lastAck =>
      simp only
      split
      · exact Or.inr rfl
      · exact Or.inl hst
    | _ => exact Or.inl hst
  rw [Socket.Opening] at h
  rcases hstate with heq | heq
  · rw [heq] at h
    rcases h with h | h | h
    · exact hs h
    · exact hno.1 h
    · exact hno.2 h
  · rw [heq] at h
    rcases h with h | h | h <;> exact TcpState.noConfusion h

/-- The timer opens nothing. -/
theorem tick_state (n : ℕ) (s : Socket) :
    (Socket.tick^[n] s).state = s.state ∨ (Socket.tick^[n] s).state = .closed := by
  obtain ⟨state, timer, heq, hstate⟩ := tick_iterate n s
  rw [heq]
  exact hstate

/-- `tcp_close` opens nothing. -/
theorem afterClose_opening {state : TcpState}
    (h : state.afterClose = .established ∨ state.afterClose = .synSent ∨
      state.afterClose = .synRecv) : False := by
  cases state <;> simp [TcpState.afterClose] at h

/-- **What makes a socket established or opens it**: it was being opened,
or it connects; and the receive buffer stays. -/
theorem Moves.opening {op : Op} (h : Moves t sock op s) (hs : (t.heap sock).state ≠ .established)
    (hopen : s.state = .established ∨ s.Opening) :
    (t.heap sock).SameRx s ∧ ((t.heap sock).Opening ∨
      ((∃ addr port, op = .connect sock addr port) ∧ (t.heap sock).state = .closed)) := by
  have hclosed : (t.heap sock).state = .closed → ¬ ((t.heap sock).state = .established ∨
      (t.heap sock).state = .synSent ∨ (t.heap sock).state = .synRecv) := by
    intro hc
    rw [hc]
    rintro (h | h | h) <;> exact TcpState.noConfusion h
  cases h with
  | same => exact ⟨⟨rfl, rfl, rfl⟩, Or.inl (hopen.resolve_left hs)⟩
  | bind _ _ hc => exact absurd hopen (hclosed hc)
  | listen hc => rcases hopen with h | h | h <;> exact TcpState.noConfusion h
  | connect addr port _ hc _ hrx => exact ⟨hrx, Or.inr ⟨⟨addr, port, rfl⟩, hc⟩⟩
  | send => exact ⟨⟨rfl, rfl, rfl⟩, Or.inl (hopen.resolve_left hs)⟩
  | recv _ hc =>
    exfalso
    have hwait := hc.resolve_left hs
    change (t.heap sock).state = .established ∨ (t.heap sock).state = .synSent ∨
      (t.heap sock).state = .synRecv at hopen
    rw [hwait] at hopen
    rcases hopen with h | h | h <;> exact TcpState.noConfusion h
  | close => exact (afterClose_opening hopen).elim
  | tick n =>
    refine ⟨tick_sameRx n _, Or.inl ?_⟩
    rw [Socket.Opening] at hopen ⊢
    rcases tick_state n (t.heap sock) with heq | heq
    · rw [heq] at hopen
      exact hopen.resolve_left hs
    · rw [heq] at hopen
      rcases hopen with h | h | h <;> exact TcpState.noConfusion h
  | rx tcp payload len hfound hlisten =>
    exact ⟨receive_sameRx hs tcp payload len, Or.inl (receive_opening hs tcp payload len hopen)⟩

/-- An established connection is not opened by a call. -/
theorem Moves.not_opening {op : Op} (h : Moves t sock op s)
    (hs : (t.heap sock).state = .established) : ¬ s.Opening := by
  have hsame : ¬ (t.heap sock).Opening := by
    rw [Socket.Opening, hs]
    rintro (h | h) <;> exact TcpState.noConfusion h
  have hclosed : (t.heap sock).state ≠ .closed := by
    rw [hs]
    exact TcpState.noConfusion
  cases h with
  | same => exact hsame
  | bind _ _ hc => exact absurd hc hclosed
  | listen hc => exact absurd hc hclosed
  | connect _ _ _ hc => exact absurd hc hclosed
  | send => exact hsame
  | recv => exact hsame
  | close => exact fun hc => afterClose_opening (Or.inr hc)
  | tick n =>
    rw [Socket.Opening]
    rcases tick_state n (t.heap sock) with heq | heq
    · rw [heq]
      exact hsame
    · rw [heq]
      rintro (h | h) <;> exact TcpState.noConfusion h
  | rx tcp payload len hfound hlisten =>
    have hreads := (receive_reads (Or.inl hs) tcp payload len).mpr
      fun hc => absurd (hs.symm.trans hc.1) TcpState.noConfusion
    rintro (h | h) <;> rcases hreads with hr | hr <;>
      exact absurd (h.symm.trans hr) TcpState.noConfusion

/-- **The invariant of runs that connect with an empty buffer.** -/
structure Inbox.Ready (sock : ℕ) (i : Inbox) : Prop where
  inv : i.Inv sock
  opening : sock ∈ i.stack.sockets → (i.stack.heap sock).Opening →
    (i.stack.heap sock).rxHead = (i.stack.heap sock).rxTail

/-- What is opened, or made to be opened, has an empty buffer. -/
theorem Inbox.Ready.empty {i : Inbox} (h : i.Ready sock) (hfresh : Fresh i.stack c)
    (hdrained : Drained sock i c) (hin' : sock ∈ (i.stack.step c).sockets)
    (hopen : Opens sock i.stack (i.stack.step c) ∨ ((i.stack.step c).heap sock).Opening) :
    ((i.stack.step c).heap sock).rxHead = ((i.stack.step c).heap sock).rxTail := by
  by_cases hin : sock ∈ i.stack.sockets
  · have hmoves := step_moves hfresh hin
    -- a connection opens from its handshake, or through `tcp_connect`, which found the buffer empty
    by_cases hs : (i.stack.heap sock).state = .established
    · rcases hopen with hopen | hopen
      · exact absurd hs hopen.1
      · exact absurd hopen (hmoves.not_opening hs)
    · obtain ⟨⟨-, hhead, htail⟩, hbefore⟩ := hmoves.opening hs (hopen.imp_left And.right)
      rw [hhead, htail]
      rcases hbefore with hopening | ⟨⟨addr, port, hop⟩, hclosed⟩
      · exact h.opening hin hopening
      · rw [Drained, hop] at hdrained
        exact hdrained rfl hclosed
  · obtain ⟨-, -, hhead, htail, -⟩ := step_created hin hin'
    rw [hhead, htail]

/-- **A call keeps the invariant.** -/
theorem Inbox.Ready.step {i : Inbox} (h : i.Ready sock) (hfresh : Fresh i.stack c)
    (hdrained : Drained sock i c) : (i.reopen sock c).Ready sock := by
  have hinv := h.inv.step hfresh
  refine ⟨?_, fun hin' hopening => h.empty hfresh hdrained hin' (Or.inr hopening)⟩
  by_cases hopens : Opens sock i.stack (i.stack.step c)
  · have hunread : (i.reopen sock c).unread = [] := if_pos hopens
    refine ⟨fun _ => hunread, hinv.nonzero, hinv.avail, fun hin' => ?_⟩
    rw [hunread, ← List.length_eq_zero_iff, length_queue, Socket.avail]
    have hempty := h.empty hfresh hdrained hin' (Or.inl hopens)
    change (((i.stack.step c).heap sock).rxTail - ((i.stack.step c).heap sock).rxHead).toNat = 0
    rw [hempty, UInt32.sub_self]
    rfl
  · have hsame : i.reopen sock c = i.step sock c := by
      rw [Inbox.reopen, if_neg hopens]
      rfl
    rw [hsame]
    exact hinv

theorem Inbox.Inv.readsOwn {i : Inbox} (h : i.Inv sock) : ReadsOwn sock i := by
  intro hin len bytes hrecv
  by_cases hreads : (i.stack.heap sock).Reads
  · rw [tcpRecv_open (h.nonzero hin) hreads, h.queue hin] at hrecv
    exact (Option.some.inj hrecv).symm
  · rw [Socket.Reads, not_or] at hreads
    rw [tcpRecv_fst, if_neg (h.nonzero hin), if_pos hreads] at hrecv
    exact absurd hrecv.symm (Option.some_ne_none _)

/-- **Connections open empty.** For every socket and every run in which
it connects with an empty receive buffer: whenever it becomes
established its buffer is empty, and whatever is read from it was
received on the present connection. -/
theorem drained_opensEmpty {heap : ℕ → Socket} {device : Option UInt32} {calls : List Call}
    (h : Allowed (Inbox.reopen sock) (fun i c => Fresh i.stack c ∧ Drained sock i c)
      ⟨tcpInit heap device, []⟩ calls) :
    let i : Inbox := ⟨tcpInit heap device, []⟩
    Allowed (Inbox.reopen sock) (OpensEmpty sock) i calls ∧
      ∀ k, ReadsOwn sock (runFrom (Inbox.reopen sock) i (calls.take k)) := by
  intro i
  -- at the start there are no sockets
  have hempty : sock ∉ i.stack.sockets := List.not_mem_nil
  have hstart : i.Ready sock :=
    ⟨⟨fun _ => rfl, fun hin => absurd hin hempty, fun hin => absurd hin hempty,
      fun hin => absurd hin hempty⟩, fun hin => absurd hin hempty⟩
  constructor
  · have hcongr := h.congr (I := Inbox.Ready sock) (fun _ _ hi hc _ => hi.step hc.1 hc.2)
      (fun i c hi hc => iff_of_true trivial fun hin' hopens =>
        hi.empty hc.1 hc.2 hin' (Or.inl hopens)) hstart
    exact hcongr.1 (allowed_true ..)
  · intro k
    have hready := (h.take k).invariant (P := Inbox.Ready sock)
      (fun _ _ hi hc => hi.step hc.1 hc.2) hstart
    exact hready.inv.readsOwn

/-- A socket that receives two bytes, is closed by its peer and read, and
connects again. -/
theorem drained_opensEmpty_twice :
    let blocks (l : List ℕ) : List Block := l.map fun a => ⟨a, noData⟩
    let rx (seq : UInt32) (flags : UInt8) (len : UInt16) : Call :=
      ⟨.rx ⟨80, 49152, seq, 0x12345679, 5, flags, 0, 0, 0⟩ (fun i => UInt8.ofNat (i + 1)) len,
        blocks [4]⟩
    let calls : List Call :=
      [⟨.socket, blocks [1, 2, 3]⟩, ⟨.connect 1 0xC0A80005 80, blocks [4]⟩,
        rx 1000 (tcpSyn ||| tcpAck) 0, rx 1001 tcpAck 2, rx 1003 (tcpFin ||| tcpAck) 0,
        ⟨.recv 1 2, []⟩, rx 1004 tcpAck 0, ⟨.connect 1 0xC0A80005 80, blocks [4]⟩,
        rx 5000 (tcpSyn ||| tcpAck) 0]
    let i : Inbox := ⟨tcpInit (fun _ => Socket.zero) none, []⟩
    (Allowed (Inbox.reopen 1) (OpensEmpty 1) i calls ∧
        ∀ k, ReadsOwn 1 (runFrom (Inbox.reopen 1) i (calls.take k))) ∧
      ((runFrom (Inbox.reopen 1) i calls).stack.heap 1).state = .established := by
  refine ⟨drained_opensEmpty ?_, by decide +kernel⟩
  refine ⟨⟨by decide, trivial⟩, ⟨by decide +kernel, fun _ _ => by decide +kernel⟩,
    ⟨by decide +kernel, trivial⟩, ⟨by decide +kernel, trivial⟩, ⟨by decide +kernel, trivial⟩,
    ⟨by decide +kernel, trivial⟩, ⟨by decide +kernel, trivial⟩,
    ⟨by decide +kernel, fun _ _ => by decide +kernel⟩, ⟨by decide +kernel, trivial⟩, trivial⟩

/-- The same socket, not read before it connects again: the new
connection opens with the bytes of the old one. -/
theorem reopened_with_old_bytes :
    let blocks (l : List ℕ) : List Block := l.map fun a => ⟨a, noData⟩
    let rx (seq : UInt32) (flags : UInt8) (len : UInt16) : Call :=
      ⟨.rx ⟨80, 49152, seq, 0x12345679, 5, flags, 0, 0, 0⟩ (fun i => UInt8.ofNat (i + 1)) len,
        blocks [4]⟩
    let calls : List Call :=
      [⟨.socket, blocks [1, 2, 3]⟩, ⟨.connect 1 0xC0A80005 80, blocks [4]⟩,
        rx 1000 (tcpSyn ||| tcpAck) 0, rx 1001 tcpAck 2, rx 1003 (tcpFin ||| tcpAck) 0,
        rx 1004 tcpAck 0, ⟨.connect 1 0xC0A80005 80, blocks [4]⟩]
    let last := rx 5000 (tcpSyn ||| tcpAck) 0
    let i := runFrom (Inbox.reopen 1) ⟨tcpInit (fun _ => Socket.zero) none, []⟩ calls
    Allowed Stack.step Fresh (tcpInit (fun _ => Socket.zero) none) (calls ++ [last]) ∧
      ¬ OpensEmpty 1 i last ∧ ¬ ReadsOwn 1 (i.reopen 1 last) ∧
      (tcpRecv (i.reopen 1 last).stack 1 2).1 = some [1, 2] := by
  refine ⟨by decide +kernel, fun h => ?_, fun h => ?_, by decide +kernel⟩
  · exact absurd (h (by decide +kernel) (by decide +kernel)) (by decide +kernel)
  · have hbytes := h (by decide +kernel) 2 [1, 2] (by decide +kernel)
    exact absurd hbytes (by decide +kernel)

end Tcp

end Kos
