import Kos.Tcp.Unread
/-!
# Tcp — the memory a socket is made of

`tcp_socket` takes three blocks from the allocator, for the socket and
for its two buffers, and only looks at the first. A socket is made by
the application, or by a SYN that reaches a listening socket, long
before a byte is copied into its receive buffer. `Served` is the exact
condition, on the answers to each call, under which no socket of the
list is ever without its buffers.
-/

namespace Kos

namespace Tcp

variable {t : Stack} {sock : ℕ} {c : Call} {s s' : Socket} {tcp : TcpHeader}
  {payload : ℕ → UInt8} {len : UInt16}

/-- The addresses of the two buffers. -/
def Socket.buffers (s : Socket) : ℕ × ℕ := (s.rxBuf.addr, s.txBuf.addr)

/-- Neither buffer is `NULL`. -/
abbrev Socket.HasBuffers (s : Socket) : Prop := s.buffers.1 ≠ 0 ∧ s.buffers.2 ≠ 0

/-- **Every socket of the list has its buffers.** -/
abbrev Stack.Buffered (t : Stack) : Prop := ∀ sock ∈ t.sockets, (t.heap sock).HasBuffers

/-- The answer to the allocation that is `i` ahead. -/
def Stack.answer (t : Stack) (i : ℕ) : Block := t.mem.getD i .null

/-- A call that runs `tcp_socket`. -/
def Creates (t : Stack) : Op → Prop
  | .socket => True
  | .rx tcp _ _ => ∃ sock, t.lookup tcp.dstPort tcp.srcPort = some sock ∧
      (t.heap sock).state = .listen ∧ hasFlag tcp.flags tcpSyn = true
  | _ => False

/-- The three blocks of a socket are there. -/
abbrev Stack.Affords (t : Stack) : Prop :=
  (t.answer 0).addr ≠ 0 ∧ (t.answer 1).addr ≠ 0 ∧ (t.answer 2).addr ≠ 0

/-- **The buffers come with the socket**: where `tcp_socket` is given
memory for the structure, it is given both buffers. -/
def Served (t : Stack) (c : Call) : Prop :=
  Creates t c.op → ((t.given c.mem).answer 0).addr ≠ 0 → (t.given c.mem).Affords

/-- The blocks that were taken from the allocator between two states. -/
def Stack.took (t t' : Stack) : List Block :=
  (t.mem.take (t.mem.length - t'.mem.length)).filter fun block => block.addr ≠ 0

/-- **A `tcp_socket` that fails as it should**: it returns `NULL`, keeps
nothing it took and leaves the list as it was. It calls `kfree` nowhere,
so what it took it keeps. -/
structure FailsClean (t : Stack) : Prop where
  null : (tcpSocket t).1 = 0
  released : t.took (tcpSocket t).2 = []
  sockets : (tcpSocket t).2.sockets = t.sockets

/-- A call that copies into or out of the receive buffer of a socket. -/
def Copies (t : Stack) (sock : ℕ) : Op → Prop
  | .rx tcp _ len => t.lookup tcp.dstPort tcp.srcPort = some sock ∧
      (t.heap sock).state = .established ∧ 0 < len ∧ tcp.seq = (t.heap sock).rcvNxt
  | .recv x _ => x = sock ∧ sock ≠ 0 ∧
      ((t.heap sock).state = .established ∨ (t.heap sock).state = .closeWait) ∧
      (t.heap sock).rxTail - (t.heap sock).rxHead ≠ 0
  | _ => False

/-- **A call that handles its memory**: a `tcp_socket` that cannot have
all of it fails as it should, and no copy into or out of a socket of the
list goes through `NULL`. -/
structure Handles (t : Stack) (c : Call) : Prop where
  fails : Creates t c.op → ¬ (t.given c.mem).Affords → FailsClean (t.given c.mem)
  copies : ∀ sock ∈ t.sockets, Copies t sock c.op → (t.heap sock).rxBuf.addr ≠ 0

/-! ## The answers of the allocator -/

theorem kmalloc_eq_answer (t : Stack) : (kmalloc t).1 = t.answer 0 := by
  unfold kmalloc Stack.answer
  cases t.mem <;> rfl

theorem kmalloc_answer (t : Stack) (i : ℕ) : (kmalloc t).2.answer i = t.answer (i + 1) := by
  unfold kmalloc Stack.answer
  cases hmem : t.mem with
  | nil => simp [hmem]
  | cons block rest => rfl

/-- **A new socket has the next two blocks as buffers**, whatever they
are. -/
theorem tcpSocket_buffers (h : (t.answer 0).addr ≠ 0) :
    (tcpSocket t).1 = (t.answer 0).addr ∧
      (tcpSocket t).2.sockets = (t.answer 0).addr :: t.sockets ∧
      ((tcpSocket t).2.heap (t.answer 0).addr).buffers =
        ((t.answer 1).addr, (t.answer 2).addr) := by
  have hfst := kmalloc_eq_answer t
  have hrx : (kmalloc (kmalloc t).2).1 = t.answer 1 := by
    rw [kmalloc_eq_answer, kmalloc_answer]
  have htx : (kmalloc (kmalloc (kmalloc t).2).2).1 = t.answer 2 := by
    rw [kmalloc_eq_answer, kmalloc_answer, kmalloc_answer]
  simp only [tcpSocket, hfst, if_neg h, kmalloc_sockets, kmalloc_heap, Function.update_self]
  refine ⟨trivial, trivial, ?_⟩
  rw [Socket.buffers, hrx, htx]

theorem tcpSocket_null (h : (t.answer 0).addr = 0) : tcpSocket t = (0, (kmalloc t).2) := by
  rcases tcpSocket_cases t with ⟨-, heq⟩ | ⟨haddr, -⟩
  · exact heq
  · rw [kmalloc_eq_answer] at haddr
    exact absurd h haddr

/-- **`tcp_socket` fails as it should exactly if the structure is what it
cannot have.** -/
theorem failsClean_iff (t : Stack) : FailsClean t ↔ (t.answer 0).addr = 0 := by
  constructor
  · intro h
    by_contra hc
    exact hc ((tcpSocket_buffers hc).1.symm.trans h.null)
  · intro h
    have hnull := tcpSocket_null h
    refine ⟨by rw [hnull], ?_, by rw [hnull, kmalloc_sockets]⟩
    rw [hnull]
    unfold Stack.answer at h
    unfold Stack.took kmalloc
    cases hmem : t.mem with
    | nil => simp [hmem]
    | cons block rest =>
      rw [hmem] at h
      have hone : (block :: rest).length - rest.length = 1 := by
        rw [List.length_cons, Nat.add_sub_cancel_left]
      simp only [hone, List.take_succ_cons, List.take_zero]
      exact List.filter_eq_nil_iff.mpr fun b hb => by simpa [List.mem_singleton.mp hb] using h

/-! ## A socket keeps its buffers -/

theorem setRx_buffers (s : Socket) (bytes : ℕ → UInt8) (rxTail rcvNxt : UInt32) :
    (s.setRx { s.rxBuf with bytes := bytes } rxTail rcvNxt).buffers = s.buffers := rfl

theorem store_buffers (s : Socket) (payload : ℕ → UInt8) (len : UInt16) :
    (s.store payload len).buffers = s.buffers := by
  rw [Socket.store]
  exact setRx_buffers ..

/-- A segment that a socket takes leaves its buffers where they are. -/
theorem receive_buffers (s : Socket) (tcp : TcpHeader) (payload : ℕ → UInt8) (len : UInt16) :
    (s.receive tcp payload len).buffers = s.buffers := by
  have hack : (s.takeAck tcp).buffers = s.buffers := by
    unfold Socket.takeAck
    split <;> rfl
  have hdata : ∀ x : Socket, (x.takeData tcp payload len).buffers = x.buffers := by
    intro x
    unfold Socket.takeData
    split
    · split
      · exact store_buffers x payload len
      · rfl
    · rfl
  have hfin : ∀ x : Socket, (x.takeFin tcp).buffers = x.buffers := by
    intro x
    unfold Socket.takeFin
    split <;> rfl
  unfold Socket.receive
  cases s.state with
  | established =>
    simp only
    rw [hfin, hdata, hack]
  | synSent =>
    simp only
    split
    · split <;> rfl
    · rfl
  | synRecv => simp only; split <;> rfl
  | closeWait => simp only; split <;> rfl
  | lastAck => simp only; split <;> rfl
  | _ => rfl

theorem tick_buffers (n : ℕ) (s : Socket) : (Socket.tick^[n] s).buffers = s.buffers := by
  obtain ⟨state, timer, heq, -⟩ := tick_iterate n s
  rw [heq]
  rfl

theorem modify_buffers {x : ℕ} {f : Socket → Socket} (hf : ∀ s, (f s).buffers = s.buffers)
    (t : Stack) (sock : ℕ) : ((t.modify x f).heap sock).buffers = (t.heap sock).buffers := by
  rw [modify_heap, Function.update_apply]
  split
  · rename_i hx
    rw [hf, hx]
  · rfl

theorem tcpConnect_buffers (t : Stack) (x : ℕ) (addr : UInt32) (port : UInt16) (sock : ℕ) :
    ((tcpConnect t x addr port).2.heap sock).buffers = (t.heap sock).buffers := by
  by_cases hopen : x = 0 ∨ (t.heap x).state ≠ .closed
  · rw [tcpConnect_refused addr port hopen]
  · rw [not_or, not_not] at hopen
    obtain ⟨hother, sndNxt, hself⟩ :=
      tcpTx_heap_apply (connecting t x addr port) x tcpSyn noData 0 sock
    rw [tcpConnect_closed addr port hopen.1 hopen.2]
    by_cases hx : sock = x
    · rw [hx, hself, connecting_self]
      rfl
    · rw [hother hx, connecting_of_ne hx]

/-- **No call moves the buffers of a socket of the list.** -/
theorem step_buffers (h : Fresh t c) (hin : sock ∈ t.sockets) :
    ((t.step c).heap sock).buffers = (t.heap sock).buffers := by
  have hmoves := step_moves h hin
  by_cases hconnect : ∃ x addr port, c.op = .connect x addr port
  · obtain ⟨x, addr, port, hop⟩ := hconnect
    unfold Stack.step
    rw [hop]
    exact tcpConnect_buffers (t.given c.mem) x addr port sock
  · generalize c.op = op at hmoves hconnect
    generalize (t.step c).heap sock = s' at hmoves ⊢
    cases hmoves with
    | connect addr port _ => exact absurd ⟨sock, addr, port, rfl⟩ hconnect
    | tick n => exact tick_buffers n _
    | rx tcp payload len => exact receive_buffers _ tcp payload len
    | _ => rfl

/-! ## Copying -/

/-- **The receive buffer is written to by a copy only.** -/
theorem copies_of_rxBuf_ne (h : Fresh t c) (hin : sock ∈ t.sockets)
    (hne : ((t.step c).heap sock).rxBuf ≠ (t.heap sock).rxBuf) : Copies t sock c.op := by
  have hmoves := step_moves h hin
  generalize c.op = op at hmoves ⊢
  generalize (t.step c).heap sock = s' at hmoves hne
  cases hmoves with
  | connect _ _ _ _ _ hrx => exact absurd hrx.1 hne
  | tick n => exact absurd (tick_sameRx n _).1 hne
  | rx tcp payload len hfound _ =>
    by_cases hs : (t.heap sock).state = .established
    · by_contra hc
      refine hne ?_
      -- neither the acknowledgement nor the end of the stream is a copy
      have hack : ((t.heap sock).takeAck tcp).rxBuf = (t.heap sock).rxBuf ∧
          ((t.heap sock).takeAck tcp).rcvNxt = (t.heap sock).rcvNxt := by
        unfold Socket.takeAck
        split <;> exact ⟨rfl, rfl⟩
      have hfin : ∀ x : Socket, (x.takeFin tcp).rxBuf = x.rxBuf := by
        intro x
        unfold Socket.takeFin
        split <;> rfl
      have hreceive := Socket.receive_of_established hs tcp payload len
      rw [hreceive, hfin, Socket.takeData]
      split
      · rename_i hlen
        split
        · rename_i hseq
          exact absurd ⟨hfound, hs, hlen, hseq.trans hack.2⟩ hc
        · exact hack.1
      · exact hack.1
    · exact absurd (receive_sameRx hs tcp payload len).1 hne
  | _ => exact absurd rfl hne

/-- **`tcp_recv` returns bytes by a copy only.** -/
theorem copies_of_tcpRecv {bytes : List UInt8} (h : (tcpRecv t sock len).1 = some bytes)
    (hne : bytes ≠ []) : Copies t sock (.recv sock len) := by
  rw [tcpRecv_fst] at h
  split at h
  · cases h
  · rename_i hsock
    split at h
    · cases h
    · rename_i hopen
      rw [not_and_or, not_not, not_not] at hopen
      split at h
      · exact absurd (Option.some.inj h).symm hne
      · rename_i havail
        exact ⟨rfl, hsock, hopen, havail⟩

/-! ## Making a socket -/

/-- A call that makes no socket links none. -/
theorem step_sockets_of_not_creates (h : ¬ Creates t c.op) (hin : sock ∈ (t.step c).sockets) :
    sock ∈ t.sockets := by
  by_contra hnew
  obtain ⟨-, -, -, -, hop | ⟨tcp, payload, len, hop⟩⟩ := step_created hnew hin
  · rw [hop] at h
    exact h trivial
  · refine hnew ?_
    rw [hop] at h
    have hstep : t.step c = tcpRx (t.given c.mem) tcp payload len := by rw [Stack.step, hop]
    rw [hstep] at hin
    cases hfound : t.lookup tcp.dstPort tcp.srcPort with
    | none => rwa [tcpRx_none (t := t.given c.mem) hfound] at hin
    | some x =>
      by_cases hlisten : (t.heap x).state = .listen
      · have hsyn : ¬ hasFlag tcp.flags tcpSyn = true := fun hc => h ⟨x, hfound, hlisten, hc⟩
        rw [tcpRx_listen (t := t.given c.mem) hfound hlisten, rxListen, if_neg hsyn] at hin
        exact hin
      · rwa [tcpRx_sockets (t := t.given c.mem) payload len hfound hlisten] at hin

/-- **A listening socket that answers** leaves the new socket with the
buffers that `tcp_socket` gave it. -/
theorem rxListen_buffers (hsyn : hasFlag tcp.flags tcpSyn = true) (h : (t.answer 0).addr ≠ 0) :
    (rxListen t sock tcp).sockets = (t.answer 0).addr :: t.sockets ∧
      ((rxListen t sock tcp).heap (t.answer 0).addr).buffers =
        ((t.answer 1).addr, (t.answer 2).addr) := by
  obtain ⟨hfst, hsockets, hbuffers⟩ := tcpSocket_buffers h
  simp only [rxListen, if_pos hsyn, hfst, if_neg h, tcpTx_sockets, modify_sockets,
    tcpTx_synAck_heap]
  refine ⟨hsockets, Eq.trans (modify_buffers ?_ _ _) hbuffers⟩
  exact fun _ => rfl

/-- **A call that makes a socket**: without memory for the structure the
list stays, and with it the new socket has the next two blocks. -/
theorem step_creates (h : Creates t c.op) :
    let given := t.given c.mem
    ((given.answer 0).addr = 0 → (t.step c).sockets = t.sockets) ∧
      ((given.answer 0).addr ≠ 0 → (t.step c).sockets = (given.answer 0).addr :: t.sockets ∧
        ((t.step c).heap (given.answer 0).addr).buffers =
          ((given.answer 1).addr, (given.answer 2).addr)) := by
  intro given
  unfold Stack.step
  generalize c.op = op at h
  cases op with
  | socket =>
    refine ⟨fun hnull => ?_, fun haddr => (tcpSocket_buffers haddr).2⟩
    simp only
    rw [tcpSocket_null hnull, kmalloc_sockets, given_sockets]
  | rx tcp payload len =>
    obtain ⟨x, hfound, hlisten, hsyn⟩ := h
    simp only
    rw [tcpRx_listen (t := given) hfound hlisten]
    refine ⟨fun hnull => ?_, fun haddr => rxListen_buffers hsyn haddr⟩
    rw [rxListen, if_pos hsyn, tcpSocket_null hnull]
    simp only [if_true, kmalloc_sockets]
    rfl
  | _ => exact h.elim

/-! ## Every run -/

/-- **A call leaves the buffers in place exactly if it is served.** -/
theorem buffered_step_iff (hfresh : Fresh t c) (h : t.Buffered) :
    (t.step c).Buffered ↔ Served t c := by
  have hold : ∀ sock ∈ t.sockets, ((t.step c).heap sock).HasBuffers := by
    intro sock hin
    rw [Socket.HasBuffers, step_buffers hfresh hin]
    exact h sock hin
  by_cases hcreates : Creates t c.op
  · obtain ⟨hnull, haddr⟩ := step_creates hcreates
    by_cases hzero : ((t.given c.mem).answer 0).addr = 0
    · refine iff_of_true (fun sock hin => hold sock ?_) fun _ hc => absurd hzero hc
      rwa [hnull hzero] at hin
    · obtain ⟨hsockets, hbuffers⟩ := haddr hzero
      have hnew : ((t.step c).heap ((t.given c.mem).answer 0).addr).HasBuffers ↔
          (t.given c.mem).Affords := by
        rw [Socket.HasBuffers, hbuffers, Stack.Affords, and_iff_right hzero]
      rw [Stack.Buffered, hsockets, List.forall_mem_cons, hnew, and_iff_left hold]
      exact ⟨fun hall _ _ => hall, fun hserved => hserved hcreates hzero⟩
  · exact iff_of_true (fun sock hin => hold sock (step_sockets_of_not_creates hcreates hin))
      fun hc => absurd hc hcreates

/-- A served call handles its memory, if the sockets have their buffers. -/
theorem handles_of_served (h : t.Buffered) (hserved : Served t c) : Handles t c := by
  refine ⟨fun hcreates hnot => (failsClean_iff _).2 ?_, fun sock hin _ => (h sock hin).1⟩
  by_contra haddr
  exact hnot (hserved hcreates haddr)

/-- **When a socket always has its buffers.** For every run of the calls
of the file and of segments, whatever the allocator answers: in every
state every socket of the list has both buffers, every `tcp_socket`
without its memory fails as it should and no copy goes through `NULL`,
exactly if every call is served. -/
theorem buffered_iff_served {heap : ℕ → Socket} {device : Option UInt32} {calls : List Call}
    (h : Allowed Stack.step Fresh (tcpInit heap device) calls) :
    (∀ n, (runFrom Stack.step (tcpInit heap device) (calls.take n)).Buffered) ∧
        Allowed Stack.step Handles (tcpInit heap device) calls ↔
      Allowed Stack.step Served (tcpInit heap device) calls := by
  have hinit : (tcpInit heap device).Buffered := fun sock hin => absurd hin List.not_mem_nil
  have hiff := h.iff_forall_take (I := fun _ => True) (fun _ _ _ _ => trivial)
    (fun t c _ hfresh hbuf => buffered_step_iff (t := t) (c := c) hfresh hbuf) trivial hinit
  constructor
  · exact fun hall => hiff.2 hall.1
  · intro hserved
    refine ⟨hiff.1 hserved, ?_⟩
    -- the buffers are carried along the run by the calls that are served
    refine ((h.and hserved).congr (I := Stack.Buffered) ?_ ?_ hinit).1 hserved
    · exact fun t c hbuf hok hgood => (buffered_step_iff hok.1 hbuf).2 hgood
    · exact fun t c hbuf hok => iff_of_true hok.2 (handles_of_served hbuf hok.2)

/-- A listening socket, and one that a SYN makes, each with its memory. -/
theorem buffered_iff_served_accepted :
    let blocks (l : List ℕ) : List Block := l.map fun a => ⟨a, noData⟩
    let syn : TcpHeader := ⟨49152, 80, 1000, 0, 5, tcpSyn, 0, 0, 0⟩
    let calls : List Call :=
      [⟨.socket, blocks [1, 2, 3]⟩, ⟨.bind 1 0 80, []⟩, ⟨.listen 1, []⟩,
        ⟨.rx syn noData 0, blocks [4, 5, 6, 7]⟩]
    let init := tcpInit (fun _ => Socket.zero) none
    (∀ n, (runFrom Stack.step init (calls.take n)).Buffered) ∧ Allowed Stack.step Handles init calls ↔
      Allowed Stack.step Served init calls :=
  buffered_iff_served (by decide +kernel)

/-- A socket whose structure was the last memory there was: `tcp_socket`
returns it, a connection is opened with it, the first data is copied
through `NULL`, and so is what the next `tcp_recv` returns of it. -/
theorem socket_without_buffers :
    let blocks (l : List ℕ) : List Block := l.map fun a => ⟨a, noData⟩
    let synAck : TcpHeader := ⟨80, 49152, 1000, 0x12345679, 5, tcpSyn ||| tcpAck, 0, 0, 0⟩
    let data : TcpHeader := ⟨80, 49152, 1001, 0x12345679, 5, tcpAck, 0, 0, 0⟩
    let payload : ℕ → UInt8 := fun _ => 7
    let calls : List Call :=
      [⟨.socket, blocks [1]⟩, ⟨.connect 1 0xC0A80005 80, blocks [4]⟩,
        ⟨.rx synAck noData 0, blocks [4]⟩]
    let init := tcpInit (fun _ => Socket.zero) none
    let t := runFrom Stack.step init calls
    let t' := t.step ⟨.rx data payload 1, []⟩
    Allowed Stack.step Fresh init (calls ++ [⟨.rx data payload 1, []⟩]) ∧
      ¬ FailsClean (init.given (blocks [1])) ∧ t.sockets = [1] ∧ ¬ t.Buffered ∧
      Copies t 1 (.rx data payload 1) ∧ (t.heap 1).rxBuf.addr = 0 ∧
      (tcpRecv t' 1 1).1 = some [7] ∧ Copies t' 1 (.recv 1 1) ∧ (t'.heap 1).rxBuf.addr = 0 := by
  intro blocks synAck data payload calls init t t'
  have hfresh : Allowed Stack.step Fresh init (calls ++ [⟨.rx data payload 1, []⟩]) := by
    decide +kernel
  have hsockets : t.sockets = [1] := by decide +kernel
  have hread : (tcpRecv t' 1 1).1 = some [7] := by decide +kernel
  have hstored : (t'.heap 1).rxBuf ≠ (t.heap 1).rxBuf := by
    intro hc
    have hbyte := congrArg (fun b : Block => b.bytes 0) hc
    exact absurd hbyte (by decide +kernel)
  have hcopied : Copies t 1 (.rx data payload 1) :=
    copies_of_rxBuf_ne (Allowed.append.1 hfresh).2.1 (hsockets ▸ List.mem_singleton_self 1) hstored
  have hclean : ¬ FailsClean (init.given (blocks [1])) := by
    rw [failsClean_iff]
    decide +kernel
  exact ⟨hfresh, hclean, hsockets, by decide +kernel, hcopied, by decide +kernel, hread,
    copies_of_tcpRecv hread (List.cons_ne_nil _ _), by decide +kernel⟩

end Tcp

end Kos
