import Kos.Tcp.Unread
/-!
# Tcp — closing a connection

After `tcp_close` a socket waits for segments and the timer to take it
to the closed state, where `tcp_cleanup` reclaims it. No segment moves a
socket that waits for the answer to its FIN, or that listens: such a
socket stays for good. One that waits for the last acknowledgement is
closed by it, if it is the socket that segment finds.
-/

namespace Kos

namespace Tcp

variable {t : Stack} {sock : ℕ} {c : Call} {s : Socket} {tcp : TcpHeader} {payload : ℕ → UInt8}
  {len : UInt16}

/-- A segment, or a tick of the timer. -/
def Op.outside : Op → Bool
  | .rx _ _ _ => true
  | .timerTick => true
  | _ => false

/-- **A socket can still be closed** by segments and the timer. -/
def CanClose (t : Stack) (sock : ℕ) : Prop :=
  ∃ calls, Allowed Stack.step (fun t c => Fresh t c ∧ c.op.outside = true) t calls ∧
    ((runFrom Stack.step t calls).heap sock).state = .closed

/-- The segments of a connection find its socket. -/
def Stack.Reaches (t : Stack) (sock : ℕ) : Prop :=
  t.lookup (t.heap sock).localPort (t.heap sock).remotePort = some sock

/-- **The sockets that `tcp_close` does not leave stuck**: those whose
connection was not open yet or is over, and those closed by their peer
that can be found. -/
def Closable (t : Stack) (sock : ℕ) : Prop :=
  match (t.heap sock).state with
  | .closed => True
  | .synSent => True
  | .synRecv => True
  | .timeWait => True
  | .closeWait => t.Reaches sock
  | .lastAck => t.Reaches sock
  | _ => False

/-! ## Sockets that stay -/

/-- The states no segment and no tick leads out of. -/
def TcpState.Stuck (state : TcpState) : Prop :=
  state = .finWait1 ∨ state = .finWait2 ∨ state = .closing ∨ state = .listen

theorem tick_of_ne (n : ℕ) (h : s.state ≠ .timeWait) : Socket.tick^[n] s = s := by
  have hself : s.tick = s := if_neg h
  exact Function.iterate_fixed hself n

/-- No segment makes a socket listen. -/
theorem Socket.receive_not_listen (hs : s.state ≠ .listen) (tcp : TcpHeader) (payload : ℕ → UInt8)
    (len : UInt16) : (s.receive tcp payload len).state ≠ .listen := by
  by_cases hest : s.state = .established
  · have hreads := (receive_reads (Or.inl hest) tcp payload len).mpr
      fun hc => absurd (hest.symm.trans hc.1) TcpState.noConfusion
    rcases hreads with hr | hr <;> rw [hr] <;> exact TcpState.noConfusion
  · unfold Socket.receive
    cases hstate : s.state with
    | listen => exact absurd hstate hs
    | established => exact absurd hstate hest
    | synSent =>
      simp only
      split
      · split
        · exact TcpState.noConfusion
        · exact hs
      · exact hs
    | synRecv =>
      simp only
      split
      · exact TcpState.noConfusion
      · exact hs
    | closeWait =>
      simp only
      split
      · exact TcpState.noConfusion
      · exact hs
    | lastAck =>
      simp only
      split
      · exact TcpState.noConfusion
      · exact hs
    | _ => exact hs

/-- Segments and ticks change no ports, and do not make or unmake a
listening socket. -/
theorem Moves.accepts {op : Op} (h : Moves t sock op s) (hout : op.outside = true)
    (dport sport : UInt16) : s.accepts dport sport = (t.heap sock).accepts dport sport ∧
      s.localPort = (t.heap sock).localPort ∧ s.remotePort = (t.heap sock).remotePort := by
  have hports : s.localPort = (t.heap sock).localPort ∧ s.remotePort = (t.heap sock).remotePort ∧
      (s.state = .listen ↔ (t.heap sock).state = .listen) := by
    cases h with
    | same => exact ⟨rfl, rfl, Iff.rfl⟩
    | tick n =>
      induction n with
      | zero => exact ⟨rfl, rfl, Iff.rfl⟩
      | succ n ih =>
        rw [Function.iterate_succ_apply', Socket.tick]
        split
        · rename_i hwait
          split
          · exact ih
          · refine ⟨ih.1, ih.2.1, ?_⟩
            rw [← ih.2.2, hwait]
            exact iff_of_false TcpState.noConfusion TcpState.noConfusion
        · exact ih
    | rx tcp payload len hfound hs =>
      obtain ⟨hl, hr⟩ := (t.heap sock).receive_ports tcp payload len
      exact ⟨hl, hr, iff_of_false (Socket.receive_not_listen hs tcp payload len) hs⟩
    | _ => exact absurd hout Bool.noConfusion
  obtain ⟨hl, hr, hlisten⟩ := hports
  refine ⟨?_, hl, hr⟩
  have hbeq : (s.state == .listen) = ((t.heap sock).state == .listen) := by
    rw [Bool.eq_iff_iff, beq_iff_eq, beq_iff_eq]
    exact hlisten
  rw [Socket.accepts, Socket.accepts, hl, hr, hbeq]

/-- **A stuck state stays.** -/
theorem Moves.stuck {op : Op} (h : Moves t sock op s) (hout : op.outside = true)
    (hs : (t.heap sock).state.Stuck) : s.state = (t.heap sock).state := by
  cases h with
  | same => rfl
  | tick n =>
    rw [tick_of_ne n]
    rcases hs with hs | hs | hs | hs <;> rw [hs] <;> exact TcpState.noConfusion
  | rx tcp payload len hfound hlisten =>
    have hself : (t.heap sock).receive tcp payload len = t.heap sock := by
      rcases hs with hs | hs | hs | hs
      · simp [Socket.receive, hs]
      · simp [Socket.receive, hs]
      · simp [Socket.receive, hs]
      · exact absurd hs hlisten
    rw [hself]
  | _ => exact absurd hout Bool.noConfusion

/-- **A socket that waits for the last acknowledgement** stays, if its
segments find another. -/
theorem Moves.lastAck {op : Op} (h : Moves t sock op s) (hout : op.outside = true)
    (hs : (t.heap sock).state = .lastAck) (hhidden : ¬ t.Reaches sock) : s.state = .lastAck := by
  cases h with
  | same => exact hs
  | tick n =>
    rw [tick_of_ne n (by rw [hs]; exact TcpState.noConfusion)]
    exact hs
  | rx tcp payload len hfound hlisten =>
    obtain ⟨hl, hr⟩ := lookup_ports hfound hlisten
    rw [← hl, ← hr] at hfound
    exact absurd hfound hhidden
  | _ => exact absurd hout Bool.noConfusion

/-- The list only grows, by sockets at addresses of their own. -/
theorem outside_sockets (h : Fresh t c) (hout : c.op.outside = true) :
    (t.step c).sockets = t.sockets ∨
      ∃ new, (t.step c).sockets = new :: t.sockets ∧ ∀ x ∈ t.sockets, new ≠ x := by
  rcases step_sockets t c with hsame | ⟨new, s, ⟨hnew, haddr⟩, hcons, -⟩ | ⟨hop, -⟩
  · exact Or.inl hsame
  · refine Or.inr ⟨new, hcons, fun x hx => ?_⟩
    rw [hnew] at haddr ⊢
    exact h.ne hx haddr
  · rw [hop] at hout
    exact Bool.noConfusion hout

/-- **A socket that is not found is not found later**: segments and ticks
change nothing of what stands before it in the list. -/
theorem reaches_of_step (h : Fresh t c) (hout : c.op.outside = true) (hin : sock ∈ t.sockets)
    (hreach : (t.step c).Reaches sock) : t.Reaches sock := by
  have hmoves : ∀ x ∈ t.sockets, Moves t x c.op ((t.step c).heap x) := fun x hx => step_moves h hx
  obtain ⟨-, hl, hr⟩ := (hmoves sock hin).accepts hout 0 0
  have hsame : ∀ l : List ℕ, (∀ x ∈ l, x ∈ t.sockets) →
      l.find? (fun x => ((t.step c).heap x).accepts (t.heap sock).localPort (t.heap sock).remotePort) =
        l.find? fun x => (t.heap x).accepts (t.heap sock).localPort (t.heap sock).remotePort := by
    intro l hl
    induction l with
    | nil => rfl
    | cons x l ih =>
      have hx := ((hmoves x (hl x List.mem_cons_self)).accepts hout (t.heap sock).localPort
        (t.heap sock).remotePort).1
      rw [List.find?_cons, List.find?_cons, hx, ih fun y hy => hl y (List.mem_cons_of_mem x hy)]
  rw [Stack.Reaches, Stack.lookup, hl, hr] at hreach
  rw [Stack.Reaches, Stack.lookup, ← hsame t.sockets fun _ hx => hx]
  rcases outside_sockets h hout with hsockets | ⟨new, hsockets, hnew⟩
  · rw [hsockets] at hreach
    exact hreach
  · rw [hsockets, List.find?_cons] at hreach
    split at hreach
    · exact absurd (Option.some.inj hreach) (hnew sock hin)
    · exact hreach

theorem mem_of_outside (h : Fresh t c) (hout : c.op.outside = true) (hin : sock ∈ t.sockets) :
    sock ∈ (t.step c).sockets := by
  rcases outside_sockets h hout with hsockets | ⟨new, hsockets, -⟩
  · rw [hsockets]
    exact hin
  · rw [hsockets]
    exact List.mem_cons_of_mem new hin

/-- **A stuck socket cannot be closed.** -/
theorem not_canClose_of_stuck (hin : sock ∈ t.sockets) (hs : (t.heap sock).state.Stuck) :
    ¬ CanClose t sock := by
  rintro ⟨calls, hcalls, hclosed⟩
  have hinv := hcalls.invariant (P := fun t => sock ∈ t.sockets ∧ (t.heap sock).state.Stuck)
    (fun t c ht hc => ⟨mem_of_outside hc.1 hc.2 ht.1, by
      rw [(step_moves hc.1 ht.1).stuck hc.2 ht.2]
      exact ht.2⟩) ⟨hin, hs⟩
  rw [hclosed] at hinv
  rcases hinv.2 with h | h | h | h <;> exact TcpState.noConfusion h

/-- **Nor can one that waits for the last acknowledgement** and is not
found. -/
theorem not_canClose_of_hidden (hin : sock ∈ t.sockets) (hs : (t.heap sock).state = .lastAck)
    (hhidden : ¬ t.Reaches sock) : ¬ CanClose t sock := by
  rintro ⟨calls, hcalls, hclosed⟩
  have hinv := hcalls.invariant
    (P := fun t => sock ∈ t.sockets ∧ (t.heap sock).state = .lastAck ∧ ¬ t.Reaches sock)
    (fun t c ht hc => ⟨mem_of_outside hc.1 hc.2 ht.1,
      (step_moves hc.1 ht.1).lastAck hc.2 ht.2.1 ht.2.2,
      fun hr => ht.2.2 (reaches_of_step hc.1 hc.2 ht.1 hr)⟩) ⟨hin, hs, hhidden⟩
  rw [hclosed] at hinv
  exact TcpState.noConfusion hinv.2.1

/-! ## Sockets that can be closed -/

/-- A tick for each count of the timer, and one more, closes a socket. -/
theorem tick_closed {n : ℕ} (hs : s.state = .timeWait) (hn : s.timeWaitTimer.toNat < n) :
    (Socket.tick^[n] s).state = .closed := by
  induction n generalizing s with
  | zero => exact absurd hn (Nat.not_lt_zero _)
  | succ n ih =>
    rw [Function.iterate_succ_apply, Socket.tick, if_pos hs]
    split
    · rename_i hpos
      have hnum : 0 < s.timeWaitTimer.toNat := UInt8.lt_iff_toNat_lt.mp hpos
      refine ih hs ?_
      change (s.timeWaitTimer - 1).toNat < n
      rw [UInt8.toNat_sub]
      have := s.timeWaitTimer.toNat_lt
      simp only [UInt8.reduceToNat]
      omega
    · rw [tick_of_ne n TcpState.noConfusion]

/-- Ticks reach every socket of the list. -/
theorem runFrom_ticks (n : ℕ) (t : Stack) (sock : ℕ) :
    (runFrom Stack.step t (List.replicate n ⟨.timerTick, []⟩)).heap sock =
      Socket.tick^[t.sockets.count sock * n] (t.heap sock) := by
  induction n generalizing t with
  | zero => rfl
  | succ n ih =>
    rw [List.replicate_succ, runFrom_cons, ih]
    change Socket.tick^[(tcpTimerTick (t.given [])).sockets.count sock * n]
      ((tcpTimerTick (t.given [])).heap sock) = _
    rw [tcpTimerTick_heap, tcpTimerTick_sockets, given_sockets, given_heap,
      ← Function.iterate_add_apply, Nat.mul_succ]

theorem canClose_of_timeWait (hin : sock ∈ t.sockets) (hs : (t.heap sock).state = .timeWait) :
    CanClose t sock := by
  refine ⟨List.replicate 256 ⟨.timerTick, []⟩, ?_, ?_⟩
  · have hall : ∀ c ∈ List.replicate 256 (⟨.timerTick, []⟩ : Call),
        c.mem = [] ∧ c.op.outside = true := by
      intro c hc
      rw [List.eq_of_mem_replicate hc]
      exact ⟨rfl, rfl⟩
    refine (allowed_of_forall Stack.step t hall).mono fun t c hc => ⟨fun block hblock => ?_, hc.2⟩
    rw [hc.1] at hblock
    exact absurd hblock List.not_mem_nil
  · rw [runFrom_ticks]
    refine tick_closed hs ?_
    have hcount := List.count_pos_iff.mpr hin
    have := (t.heap sock).timeWaitTimer.toNat_lt
    omega

/-- An acknowledgement closes a socket that waits for the last one and is
found. -/
theorem canClose_of_lastAck (hs : (t.heap sock).state = .lastAck) (hreach : t.Reaches sock) :
    CanClose t sock := by
  let tcp : TcpHeader :=
    ⟨(t.heap sock).remotePort, (t.heap sock).localPort, 0, 0, 5, tcpAck, 0, 0, 0⟩
  have hlisten : (t.heap sock).state ≠ .listen := by
    rw [hs]
    exact TcpState.noConfusion
  refine ⟨[⟨.rx tcp noData 0, []⟩], ⟨⟨fun block hblock => ?_, rfl⟩, trivial⟩, ?_⟩
  · exact absurd hblock List.not_mem_nil
  · have hfound : (t.given []).lookup tcp.dstPort tcp.srcPort = some sock := hreach
    change ((tcpRx (t.given []) tcp noData 0).heap sock).state = .closed
    rw [tcpRx_heap (t := t.given []) noData 0 hfound hlisten, Function.update_self, given_heap]
    have hack : hasFlag tcp.flags tcpAck = true := show hasFlag tcpAck tcpAck = true by decide
    simp only [Socket.receive, hs, hack, if_true]

/-! ## Closing -/

theorem tcpClose_state (hsock : sock ≠ 0) :
    ((tcpClose t sock).heap sock).state = (t.heap sock).state.afterClose := by
  unfold tcpClose
  rw [if_neg hsock]
  cases hs : (t.heap sock).state with
  | established => simp only [(tcpTx_self ..).1, modify_heap, Function.update_self]; rfl
  | closeWait => simp only [(tcpTx_self ..).1, modify_heap, Function.update_self]; rfl
  | synSent => simp only [modify_heap, Function.update_self]; rfl
  | synRecv => simp only [modify_heap, Function.update_self]; rfl
  | closed => simp only [modify_heap, Function.update_self]; rfl
  | _ => exact hs

/-- `tcp_close` does not change which segments find a socket. -/
theorem tcpClose_reaches (t : Stack) (sock : ℕ) :
    (tcpClose t sock).Reaches sock ↔ t.Reaches sock := by
  have hself : ((tcpClose t sock).heap sock).localPort = (t.heap sock).localPort ∧
      ((tcpClose t sock).heap sock).remotePort = (t.heap sock).remotePort ∧
      (((tcpClose t sock).heap sock).state = .listen ↔ (t.heap sock).state = .listen) := by
    rcases (tcpClose_heap t sock sock).2 with heq | ⟨sndNxt, heq⟩
    · rw [heq]
      exact ⟨rfl, rfl, Iff.rfl⟩
    · rw [heq]
      refine ⟨rfl, rfl, ?_⟩
      cases hs : (t.heap sock).state <;> simp [TcpState.afterClose]
  have haccepts : ∀ x, ((tcpClose t sock).heap x).accepts (t.heap sock).localPort
      (t.heap sock).remotePort =
      (t.heap x).accepts (t.heap sock).localPort (t.heap sock).remotePort := by
    intro x
    by_cases hx : x = sock
    · subst hx
      have hbeq : (((tcpClose t x).heap x).state == .listen) = ((t.heap x).state == .listen) := by
        rw [Bool.eq_iff_iff, beq_iff_eq, beq_iff_eq]
        exact hself.2.2
      rw [Socket.accepts, Socket.accepts, hself.1, hself.2.1, hbeq]
    · rw [(tcpClose_heap t sock x).1 hx]
  rw [Stack.Reaches, Stack.Reaches, Stack.lookup, Stack.lookup, hself.1, hself.2.1,
    tcpClose_sockets, funext haccepts]

/-- **Which sockets `tcp_close` leaves stuck.** For every stack and every
socket of its list: there are segments and ticks that take the socket to
the closed state exactly if its connection was not open yet or is over,
or it was closed by its peer and can be found. -/
theorem canClose_iff_closable (hsock : sock ≠ 0) (hin : sock ∈ t.sockets) (mem : List Block) :
    CanClose (t.step ⟨.close sock, mem⟩) sock ↔ Closable t sock := by
  change CanClose (tcpClose (t.given mem) sock) sock ↔ _
  have hin' : sock ∈ (tcpClose (t.given mem) sock).sockets := by
    rw [tcpClose_sockets]
    exact hin
  have hstate := tcpClose_state (t := t.given mem) hsock
  rw [given_heap] at hstate
  have hreaches : (tcpClose (t.given mem) sock).Reaches sock ↔ t.Reaches sock :=
    tcpClose_reaches (t.given mem) sock
  unfold Closable
  -- by the state before the call, and the one after it
  have hclosed : (t.heap sock).state.afterClose = .closed →
      CanClose (tcpClose (t.given mem) sock) sock := by
    intro hs
    rw [hs] at hstate
    exact ⟨[], trivial, hstate⟩
  have hstuck : (t.heap sock).state.afterClose.Stuck →
      ¬ CanClose (tcpClose (t.given mem) sock) sock := by
    intro hs
    rw [← hstate] at hs
    exact not_canClose_of_stuck hin' hs
  have hlast : (t.heap sock).state.afterClose = .lastAck →
      (CanClose (tcpClose (t.given mem) sock) sock ↔ t.Reaches sock) := by
    intro hs
    rw [hs] at hstate
    rw [← hreaches]
    refine ⟨fun hcan => ?_, fun hreach => canClose_of_lastAck hstate hreach⟩
    by_contra hhidden
    exact not_canClose_of_hidden hin' hstate hhidden hcan
  cases hs : (t.heap sock).state with
  | closed => exact iff_of_true (hclosed (by rw [hs]; rfl)) trivial
  | synSent => exact iff_of_true (hclosed (by rw [hs]; rfl)) trivial
  | synRecv => exact iff_of_true (hclosed (by rw [hs]; rfl)) trivial
  | timeWait =>
    rw [hs] at hstate
    exact iff_of_true (canClose_of_timeWait hin' hstate) trivial
  | closeWait => exact hlast (by rw [hs]; rfl)
  | lastAck => exact hlast (by rw [hs]; rfl)
  | established => exact iff_of_false (hstuck (by rw [hs]; exact Or.inl rfl)) id
  | finWait1 => exact iff_of_false (hstuck (by rw [hs]; exact Or.inl rfl)) id
  | finWait2 => exact iff_of_false (hstuck (by rw [hs]; exact Or.inr (Or.inl rfl))) id
  | closing => exact iff_of_false (hstuck (by rw [hs]; exact Or.inr (Or.inr (Or.inl rfl)))) id
  | listen => exact iff_of_false (hstuck (by rw [hs]; exact Or.inr (Or.inr (Or.inr rfl)))) id

/-- A socket whose peer has closed the connection. -/
theorem canClose_iff_closable_closeWait :
    let s : Socket :=
      { Socket.zero with state := .closeWait, localPort := 80, remotePort := 5000 }
    let t : Stack := { tcpInit (fun _ => s) none with sockets := [1] }
    CanClose (t.step ⟨.close 1, []⟩) 1 ∧ Closable t 1 := by
  intro s t
  have hiff : CanClose (t.step ⟨.close 1, []⟩) 1 ↔ Closable t 1 :=
    canClose_iff_closable (by decide) (by decide) []
  have hclosable : Closable t 1 := rfl
  exact ⟨hiff.mpr hclosable, hclosable⟩

/-- An established connection, closed here: nothing that arrives takes it
to the closed state. -/
theorem closed_established_stuck :
    let blocks (l : List ℕ) : List Block := l.map fun a => ⟨a, noData⟩
    let calls : List Call :=
      [⟨.socket, blocks [1, 2, 3]⟩, ⟨.connect 1 0xC0A80005 80, blocks [4]⟩,
        ⟨.rx ⟨80, 49152, 1000, 0x12345679, 5, tcpSyn ||| tcpAck, 0, 0, 0⟩ noData 0, blocks [4]⟩]
    let t := runFrom Stack.step (tcpInit (fun _ => Socket.zero) none) calls
    Allowed Stack.step Fresh (tcpInit (fun _ => Socket.zero) none) calls ∧
      (t.heap 1).state = .established ∧ ¬ CanClose (t.step ⟨.close 1, blocks [4]⟩) 1 := by
  refine ⟨by decide +kernel, by decide +kernel, not_canClose_of_stuck (by decide +kernel) ?_⟩
  exact Or.inl (by decide +kernel)

end Tcp

end Kos
