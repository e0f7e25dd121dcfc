import Kos.Tcp.Demux
import Mathlib.Logic.Function.Iterate
/-!
# Tcp — what a call does to one socket

`Moves` lists everything that a call can do to a socket of the list; a
socket that is not the one a call is about, or that a segment does not
find, stays as it was. A socket that was not in the list before is new,
and its receive buffer is empty. Invariants of whole runs are read off
these two facts.
-/

namespace Kos

namespace Tcp

variable {t : Stack} {sock : ℕ} {c : Call} {s s' : Socket} {tcp : TcpHeader}
  {payload : ℕ → UInt8} {len : UInt16}

/-- The receive buffer and its counters are those of another socket. -/
def Socket.SameRx (s s' : Socket) : Prop :=
  s'.rxBuf = s.rxBuf ∧ s'.rxHead = s.rxHead ∧ s'.rxTail = s.rxTail

/-- The state `tcp_close` moves a socket to. -/
def TcpState.afterClose : TcpState → TcpState
  | .established => .finWait1
  | .closeWait => .lastAck
  | .synSent => .closed
  | .synRecv => .closed
  | state => state

/-- **What a call can do to a socket of the list.** -/
inductive Moves (t : Stack) (sock : ℕ) : Op → Socket → Prop
  | same (op : Op) : Moves t sock op (t.heap sock)
  | bind (addr : UInt32) (port : UInt16) (h : (t.heap sock).state = .closed) :
      Moves t sock (.bind sock addr port) { t.heap sock with localAddr := addr, localPort := port }
  | listen (h : (t.heap sock).state = .closed) :
      Moves t sock (.listen sock) { t.heap sock with state := .listen }
  | connect (addr : UInt32) (port : UInt16) (s' : Socket) (h : (t.heap sock).state = .closed)
      (hstate : s'.state = .synSent) (hrx : (t.heap sock).SameRx s') :
      Moves t sock (.connect sock addr port) s'
  | send (data : Block) (len : UInt16) (sndNxt : UInt32) :
      Moves t sock (.send sock data len) { t.heap sock with sndNxt := sndNxt }
  | recv (len : UInt16)
      (h : (t.heap sock).state = .established ∨ (t.heap sock).state = .closeWait) :
      Moves t sock (.recv sock len) ((t.heap sock).fetched len)
  | close (sndNxt : UInt32) :
      Moves t sock (.close sock)
        { t.heap sock with state := (t.heap sock).state.afterClose, sndNxt := sndNxt }
  | tick (n : ℕ) : Moves t sock .timerTick (Socket.tick^[n] (t.heap sock))
  | rx (tcp : TcpHeader) (payload : ℕ → UInt8) (len : UInt16)
      (h : t.lookup tcp.dstPort tcp.srcPort = some sock) (hs : (t.heap sock).state ≠ .listen) :
      Moves t sock (.rx tcp payload len) ((t.heap sock).receive tcp payload len)

/-! ## The calls one by one -/

/-- **Writes to one socket**: the others stay, and so do the list, the
packets sent, the sequence number of the file and the receive buffer. -/
structure Wrote (t : Stack) (sock : ℕ) (t' : Stack) : Prop where
  other : ∀ x, x ≠ sock → t'.heap x = t.heap x
  sockets : t'.sockets = t.sockets
  sent : t'.sent = t.sent
  seq : t'.tcpSeqNum = t.tcpSeqNum
  rx : (t.heap sock).SameRx (t'.heap sock)

/-- `tcp_connect` on a closed socket writes to it and sends a SYN. -/
theorem tcpConnect_eq (addr : UInt32) (port : UInt16) (hsock : sock ≠ 0)
    (h : (t.heap sock).state = .closed) :
    ∃ t₁, (tcpConnect t sock addr port).2 = tcpTx t₁ sock tcpSyn noData 0 ∧ Wrote t sock t₁ ∧
      (t₁.heap sock).state = .synSent ∧ (t₁.heap sock).sndNxt = t.tcpSeqNum + 1 := by
  obtain ⟨hsockets, hsent, -, hseq, -⟩ := connecting_others t sock addr port
  have hself := connecting_self t sock addr port
  refine ⟨_, tcpConnect_closed addr port hsock h, ?_, by rw [hself]; rfl, by rw [hself]; rfl⟩
  exact ⟨fun x hx => connecting_of_ne hx addr port, hsockets, hsent, hseq,
    by rw [hself]; exact ⟨rfl, rfl, rfl⟩⟩

/-- The loop of `tcp_timer_tick` ticks a socket once for each time it is
in the list. -/
theorem tcpTimerTick_heap (t : Stack) (sock : ℕ) :
    (tcpTimerTick t).heap sock = Socket.tick^[t.sockets.count sock] (t.heap sock) := by
  have hloop : ∀ (l : List ℕ) (t : Stack),
      (l.foldl (fun t sock => t.modify sock Socket.tick) t).heap sock =
        Socket.tick^[l.count sock] (t.heap sock) := by
    intro l
    induction l with
    | nil => intro t; rfl
    | cons x l ih =>
      intro t
      rw [List.foldl_cons, ih, modify_heap, List.count_cons]
      by_cases hx : x = sock
      · rw [hx, Function.update_self, if_pos (beq_self_eq_true sock), Function.iterate_succ_apply]
      · rw [Function.update_of_ne (Ne.symm hx), if_neg (by simpa using hx), Nat.add_zero]
  exact hloop t.sockets t

/-- **Ticks move a socket to the closed state at most**, and count down. -/
theorem tick_iterate (n : ℕ) (s : Socket) :
    ∃ state timer, Socket.tick^[n] s = { s with state := state, timeWaitTimer := timer } ∧
      (state = s.state ∨ state = .closed) := by
  induction n with
  | zero => exact ⟨s.state, s.timeWaitTimer, rfl, Or.inl rfl⟩
  | succ n ih =>
    obtain ⟨state, timer, heq, hstate⟩ := ih
    rw [Function.iterate_succ_apply', heq]
    unfold Socket.tick
    split
    · split
      · exact ⟨state, timer - 1, rfl, hstate⟩
      · exact ⟨.closed, timer, rfl, Or.inr rfl⟩
    · exact ⟨state, timer, rfl, hstate⟩

/-- Sending writes to `snd_nxt` of the socket at most. -/
theorem tcpTx_heap_apply (t : Stack) (sock : ℕ) (flags : UInt8) (data : ℕ → UInt8) (len : UInt16)
    (x : ℕ) : (x ≠ sock → (tcpTx t sock flags data len).heap x = t.heap x) ∧
      ∃ sndNxt, (tcpTx t sock flags data len).heap sock = { t.heap sock with sndNxt := sndNxt } := by
  rcases tcpTx_heap t sock flags data len with h | h
  · rw [h]
    exact ⟨fun _ => rfl, _, rfl⟩
  · rw [h, Function.update_self]
    exact ⟨fun hx => Function.update_of_ne hx .., _, rfl⟩

theorem tcpClose_heap (t : Stack) (x sock : ℕ) :
    (sock ≠ x → (tcpClose t x).heap sock = t.heap sock) ∧
      ((tcpClose t x).heap x = t.heap x ∨ ∃ sndNxt, (tcpClose t x).heap x =
        { t.heap x with state := (t.heap x).state.afterClose, sndNxt := sndNxt }) := by
  unfold tcpClose
  split
  · exact ⟨fun _ => rfl, Or.inl rfl⟩
  · have htx : ∀ state, (t.heap x).state.afterClose = state →
        let r := tcpTx (t.modify x fun s => { s with state := state }) x (tcpFin ||| tcpAck) noData 0
        (sock ≠ x → r.heap sock = t.heap sock) ∧ (r.heap x = t.heap x ∨ ∃ sndNxt, r.heap x =
          { t.heap x with state := (t.heap x).state.afterClose, sndNxt := sndNxt }) := by
      intro state hstate
      obtain ⟨hother, sndNxt, hself⟩ := tcpTx_heap_apply
        (t.modify x fun s => { s with state := state }) x (tcpFin ||| tcpAck) noData 0 sock
      refine ⟨fun hne => (hother hne).trans (Function.update_of_ne hne ..), Or.inr ⟨sndNxt, ?_⟩⟩
      rw [hself, modify_heap, Function.update_self, hstate]
    have hset : (t.heap x).state.afterClose = .closed →
        let r := t.modify x fun s => { s with state := .closed }
        (sock ≠ x → r.heap sock = t.heap sock) ∧ (r.heap x = t.heap x ∨ ∃ sndNxt, r.heap x =
          { t.heap x with state := (t.heap x).state.afterClose, sndNxt := sndNxt }) := by
      intro hstate
      refine ⟨fun hne => Function.update_of_ne hne .., Or.inr ⟨(t.heap x).sndNxt, ?_⟩⟩
      rw [modify_heap, Function.update_self, hstate]
    split
    · rename_i hs
      exact htx _ (by rw [hs]; rfl)
    · rename_i hs
      exact htx _ (by rw [hs]; rfl)
    · rename_i hs
      exact hset (by rw [hs]; rfl)
    · rename_i hs
      exact hset (by rw [hs]; rfl)
    · rename_i hs
      exact hset (by rw [hs]; rfl)
    · exact ⟨fun _ => rfl, Or.inl rfl⟩

/-! ## Every call -/

/-- A new socket is at an address of its own. -/
theorem Fresh.ne (h : Fresh t c) (hin : sock ∈ t.sockets)
    (haddr : (kmalloc (t.given c.mem)).1.addr ≠ 0) : (kmalloc (t.given c.mem)).1.addr ≠ sock := by
  rintro rfl
  rcases kmalloc_given t c.mem with hnull | hmem
  · rw [hnull] at haddr
    exact haddr rfl
  · exact h _ hmem hin

/-- **A segment moves the socket it finds**, and no other of the list. -/
theorem tcpRx_moves (h : Fresh t c) (hin : sock ∈ t.sockets) (tcp : TcpHeader)
    (payload : ℕ → UInt8) (len : UInt16) :
    Moves t sock (.rx tcp payload len) ((tcpRx (t.given c.mem) tcp payload len).heap sock) := by
  cases hfound : t.lookup tcp.dstPort tcp.srcPort with
  | none =>
    rw [tcpRx_none (t := t.given c.mem) hfound]
    exact .same _
  | some x =>
    by_cases hlisten : (t.heap x).state = .listen
    · rw [tcpRx_listen (t := t.given c.mem) hfound hlisten]
      rcases rxListen_cases (t.given c.mem) x tcp with ⟨-, hheap, -⟩ | ⟨⟨-, haddr⟩, ⟨s, -, hheap⟩, -⟩
      · rw [hheap]
        exact .same _
      · rw [hheap, Function.update_of_ne (h.ne hin haddr).symm]
        exact .same _
    · rw [tcpRx_heap (t := t.given c.mem) payload len hfound hlisten]
      by_cases hx : sock = x
      · subst hx
        rw [Function.update_self]
        exact .rx tcp payload len hfound hlisten
      · rw [Function.update_of_ne hx]
        exact .same _

/-- **A call moves a socket of the list as `Moves` says.** -/
theorem step_moves (h : Fresh t c) (hin : sock ∈ t.sockets) :
    Moves t sock c.op ((t.step c).heap sock) := by
  -- a write to another socket leaves this one
  have hmodify : ∀ (x : ℕ) (f : Socket → Socket), x ≠ sock →
      ((t.given c.mem).modify x f).heap sock = t.heap sock := by
    intro x f hx
    rw [modify_heap, Function.update_of_ne (Ne.symm hx), given_heap]
  unfold Stack.step
  cases hop : c.op with
  | socket =>
    simp only
    rcases tcpSocket_cases (t.given c.mem) with ⟨-, heq⟩ | ⟨haddr, -, -, -, s, -, hheap⟩
    · rw [heq, kmalloc_heap]
      exact .same _
    · rw [hheap, Function.update_of_ne (h.ne hin haddr).symm]
      exact .same _
  | bind x addr port =>
    simp only [tcpBind]
    split
    · exact .same _
    · rename_i hopen
      by_cases hx : x = sock
      · subst hx
        rw [not_or, not_not] at hopen
        simp only [modify_heap, Function.update_self]
        exact .bind addr port hopen.2
      · rw [hmodify x _ hx]
        exact .same _
  | listen x =>
    simp only [tcpListen]
    split
    · exact .same _
    · rename_i hopen
      split
      · exact .same _
      · by_cases hx : x = sock
        · subst hx
          rw [not_or, not_not] at hopen
          simp only [modify_heap, Function.update_self]
          exact .listen hopen.2
        · rw [hmodify x _ hx]
          exact .same _
  | connect x addr port =>
    simp only
    by_cases hopen : x = 0 ∨ (t.heap x).state ≠ .closed
    · rw [tcpConnect_refused (t := t.given c.mem) addr port hopen]
      exact .same _
    · rw [not_or, not_not] at hopen
      obtain ⟨t₁, heq, hwrote, hstate, -⟩ :=
        tcpConnect_eq (t := t.given c.mem) addr port hopen.1 hopen.2
      obtain ⟨hother, sndNxt, hself⟩ := tcpTx_heap_apply t₁ x tcpSyn noData 0 sock
      rw [heq]
      by_cases hx : x = sock
      · subst hx
        rw [hself]
        exact .connect addr port _ hopen.2 hstate hwrote.rx
      · rw [hother (Ne.symm hx), hwrote.other sock (Ne.symm hx)]
        exact .same _
  | send x data len =>
    simp only [tcpSend]
    split
    · exact .same _
    · split
      · exact .same _
      · obtain ⟨hother, sndNxt, hself⟩ :=
          tcpTx_heap_apply (t.given c.mem) x (tcpAck ||| tcpPsh) data.bytes len sock
        by_cases hx : x = sock
        · subst hx
          rw [hself]
          exact .send data len sndNxt
        · rw [hother (Ne.symm hx)]
          exact .same _
  | recv x len =>
    simp only [tcpRecv]
    split
    · exact .same _
    · split
      · exact .same _
      · rename_i hopen
        split
        · exact .same _
        · by_cases hx : x = sock
          · subst hx
            simp only [modify_heap, Function.update_self]
            refine .recv len ?_
            rw [not_and_or, not_not, not_not] at hopen
            exact hopen
          · rw [hmodify x _ hx]
            exact .same _
  | close x =>
    simp only
    obtain ⟨hother, hself⟩ := tcpClose_heap (t.given c.mem) x sock
    by_cases hx : x = sock
    · subst hx
      rcases hself with hself | ⟨sndNxt, hself⟩
      · rw [hself]
        exact .same _
      · rw [hself]
        exact .close sndNxt
    · rw [hother (Ne.symm hx)]
      exact .same _
  | timerTick =>
    simp only
    rw [tcpTimerTick_heap]
    exact .tick _
  | cleanup => exact .same _
  | rx tcp payload len => exact tcpRx_moves h hin tcp payload len

/-! ## The list of sockets -/

theorem tcpClose_sockets (t : Stack) (x : ℕ) : (tcpClose t x).sockets = t.sockets := by
  unfold tcpClose
  split
  · rfl
  · split <;> simp only [tcpTx_sockets, modify_sockets]

theorem tcpTimerTick_sockets (t : Stack) : (tcpTimerTick t).sockets = t.sockets := by
  have hloop : ∀ (l : List ℕ) (t : Stack),
      (l.foldl (fun t sock => t.modify sock Socket.tick) t).sockets = t.sockets := by
    intro l
    induction l with
    | nil => intro t; rfl
    | cons x l ih =>
      intro t
      rw [List.foldl_cons, ih, modify_sockets]
  exact hloop t.sockets t

/-- **What a call does to the list**: nothing, or it links a new socket
with an empty receive buffer, or it unlinks the closed ones. -/
theorem step_sockets (t : Stack) (c : Call) :
    (t.step c).sockets = t.sockets ∨
      (∃ new s, (new = (kmalloc (t.given c.mem)).1.addr ∧ new ≠ 0) ∧
        (t.step c).sockets = new :: t.sockets ∧ (t.step c).heap new = s ∧
        (s.state = .closed ∨ s.state = .synRecv) ∧ s.rxHead = 0 ∧ s.rxTail = 0 ∧
        (c.op = .socket ∨ ∃ tcp payload len, c.op = .rx tcp payload len)) ∨
      (c.op = .cleanup ∧ (t.step c).sockets =
        t.sockets.filter fun sock => (t.heap sock).state != .closed) := by
  unfold Stack.step
  cases hop : c.op with
  | socket =>
    simp only
    rcases tcpSocket_cases (t.given c.mem) with ⟨-, heq⟩ | ⟨haddr, -, hsockets, -, s, hs, hheap⟩
    · rw [heq, kmalloc_sockets]
      exact Or.inl rfl
    · refine Or.inr (Or.inl ⟨_, s, ⟨rfl, haddr⟩, hsockets, ?_, Or.inl hs.1, hs.2.1, hs.2.2, Or.inl trivial⟩)
      rw [hheap, Function.update_self]
  | bind x addr port =>
    simp only [tcpBind]
    split <;> exact Or.inl rfl
  | listen x =>
    simp only [tcpListen]
    split
    · exact Or.inl rfl
    · split <;> exact Or.inl rfl
  | connect x addr port =>
    simp only
    refine Or.inl ?_
    by_cases hopen : x = 0 ∨ (t.heap x).state ≠ .closed
    · rw [tcpConnect_refused (t := t.given c.mem) addr port hopen, given_sockets]
    · rw [not_or, not_not] at hopen
      obtain ⟨t₁, heq, hwrote, -⟩ := tcpConnect_eq (t := t.given c.mem) addr port hopen.1 hopen.2
      rw [heq, tcpTx_sockets, hwrote.sockets, given_sockets]
  | send x data len =>
    simp only [tcpSend]
    split
    · exact Or.inl rfl
    · split
      · exact Or.inl rfl
      · exact Or.inl (tcpTx_sockets ..)
  | recv x len =>
    simp only [tcpRecv]
    refine Or.inl ?_
    repeat' split
    all_goals rfl
  | close x => exact Or.inl (tcpClose_sockets ..)
  | timerTick => exact Or.inl (tcpTimerTick_sockets ..)
  | cleanup => exact Or.inr (Or.inr ⟨rfl, rfl⟩)
  | rx tcp payload len =>
    simp only
    cases hfound : t.lookup tcp.dstPort tcp.srcPort with
    | none =>
      rw [tcpRx_none (t := t.given c.mem) hfound]
      exact Or.inl rfl
    | some x =>
      by_cases hlisten : (t.heap x).state = .listen
      · rw [tcpRx_listen (t := t.given c.mem) hfound hlisten]
        rcases rxListen_cases (t.given c.mem) x tcp with ⟨-, -, hsockets, -⟩ |
          ⟨⟨-, haddr⟩, ⟨s, hs, hheap⟩, hsockets, -⟩
        · exact Or.inl hsockets
        · refine Or.inr (Or.inl ⟨_, s, ⟨rfl, haddr⟩, hsockets, ?_, Or.inr hs.1, hs.2.1, hs.2.2,
            Or.inr ⟨tcp, payload, len, rfl⟩⟩)
          rw [hheap, Function.update_self]
      · exact Or.inl (tcpRx_sockets (t := t.given c.mem) payload len hfound hlisten)

/-- **A socket that enters the list** is closed or being accepted, and
has an empty receive buffer. -/
theorem step_created (hnew : sock ∉ t.sockets) (hin : sock ∈ (t.step c).sockets) :
    sock ≠ 0 ∧ (((t.step c).heap sock).state = .closed ∨ ((t.step c).heap sock).state = .synRecv) ∧
      ((t.step c).heap sock).rxHead = 0 ∧ ((t.step c).heap sock).rxTail = 0 ∧
      (c.op = .socket ∨ ∃ tcp payload len, c.op = .rx tcp payload len) := by
  rcases step_sockets t c with hsame | ⟨new, s, haddr, hcons, hheap, hs⟩ | ⟨-, hfilter⟩
  · rw [hsame] at hin
    exact absurd hin hnew
  · rw [hcons] at hin
    rcases List.mem_cons.mp hin with rfl | hin
    · rw [hheap]
      exact ⟨haddr.2, hs⟩
    · exact absurd hin hnew
  · rw [hfilter] at hin
    exact absurd (List.mem_of_mem_filter hin) hnew

end Tcp

end Kos
