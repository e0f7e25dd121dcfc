import Kos.Common.Run
import Kos.Tcp.Effects
/-!
# Tcp — which socket a segment reaches

`tcp_rx` is not given the source address of a segment, and takes the
first socket of the list that has its ports or listens on its port. So
a segment of one peer can reach the connection of another that uses the
same ports, and a listening socket that was created later is found
before an open connection. `Routed` is the exact condition, on the
socket found, under which neither happens.
-/

namespace Kos

namespace Tcp

variable {t : Stack} {sock : ℕ} {s : Socket} {tcp : TcpHeader} {payload : ℕ → UInt8}
  {len : UInt16} {mem : List Block} {addr : UInt32}

/-- The socket of a connection with a peer. -/
def Socket.IsConn (s : Socket) (dport : UInt16) (addr : UInt32) (sport : UInt16) : Prop :=
  s.localPort = dport ∧ s.remoteAddr = addr ∧ s.remotePort = sport

/-- No socket is the connection a segment from `addr` belongs to. -/
def NoConn (t : Stack) (addr : UInt32) (tcp : TcpHeader) : Prop :=
  ∀ sock ∈ t.sockets, (t.heap sock).state ≠ .listen →
    ¬ (t.heap sock).IsConn tcp.dstPort addr tcp.srcPort

/-- **A segment from `addr` stays with its connection**: no other socket
changes, and a new one is made only if there is no such connection. -/
structure Isolated (t t' : Stack) (addr : UInt32) (tcp : TcpHeader) : Prop where
  changed : ∀ sock ∈ t.sockets, t'.heap sock ≠ t.heap sock →
    (t.heap sock).IsConn tcp.dstPort addr tcp.srcPort
  listener : t'.sockets ≠ t.sockets → NoConn t addr tcp

/-- A segment that a socket in its state takes nothing from. -/
def Socket.Ignores (s : Socket) (tcp : TcpHeader) (len : UInt16) : Prop :=
  match s.state with
  | .synSent =>
    ¬ (hasFlag tcp.flags tcpSyn = true ∧ hasFlag tcp.flags tcpAck = true ∧ tcp.ack = s.sndUna + 1)
  | .synRecv => hasFlag tcp.flags tcpAck = false
  | .established =>
    (hasFlag tcp.flags tcpAck = true → tcp.ack = s.sndUna) ∧
      hasFlag tcp.flags tcpFin = false ∧ (0 < len → tcp.seq = s.rcvNxt → s.space = 0)
  | .closeWait => hasFlag tcp.flags tcpAck = false
  | .lastAck => hasFlag tcp.flags tcpAck = false
  | _ => True

/-- **The socket found is the right one.** Of a listening socket: it does
not answer, or there is no connection to answer for. Of another: it is
of this peer, or takes nothing from the segment. -/
def Routed (t : Stack) (mem : List Block) (addr : UInt32) (tcp : TcpHeader) (len : UInt16) : Prop :=
  ∀ sock, t.lookup tcp.dstPort tcp.srcPort = some sock →
    if (t.heap sock).state = .listen then
      hasFlag tcp.flags tcpSyn = true → (kmalloc (t.given mem)).1.addr ≠ 0 → NoConn t addr tcp
    else (t.heap sock).remoteAddr = addr ∨ (t.heap sock).Ignores tcp len

/-! ## What a socket takes -/

/-- A full buffer stores nothing. -/
theorem store_of_space (h : s.space = 0) : s.store payload len = s := by
  have hclamp : clamp len s.space = 0 := by
    rw [← UInt16.toNat_inj, toNat_clamp, h]
    exact Nat.min_zero len.toNat
  have hbytes : (s.store payload len).rxBuf.bytes = s.rxBuf.bytes := by
    rw [store_bytes, hclamp]
    exact Ring.push_zero (by decide)
  have hparts : s.store payload len =
      s.setRx { s.rxBuf with bytes := (s.store payload len).rxBuf.bytes }
        (s.rxTail + (clamp len s.space).toUInt32) (s.rcvNxt + (clamp len s.space).toUInt32) := rfl
  rw [hparts, hbytes, hclamp, show (0 : UInt16).toUInt32 = 0 from rfl, UInt32.add_zero,
    UInt32.add_zero, Socket.setRx]

/-- A buffer with room stores something. -/
theorem space_of_store (hlen : 0 < len) (h : (s.store payload len).rxTail = s.rxTail) :
    s.space = 0 := by
  have hnum := congrArg UInt32.toNat ((store_rxTail s payload len).symm.trans h)
  have hlt := s.rxTail.toNat_lt
  have hclamp := (clamp len s.space).toNat_lt
  have hpos : 0 < len.toNat := UInt16.lt_iff_toNat_lt.mp hlen
  rw [UInt32.toNat_add, UInt16.toNat_toUInt32] at hnum
  rw [toNat_clamp] at *
  rw [← UInt32.toNat_inj, show (0 : UInt32).toNat = 0 from rfl]
  omega

/-- **On an established connection** a segment is ignored if it repeats
the last acknowledgement and brings no data that can be stored. -/
theorem receive_established (hs : s.state = .established) :
    s.receive tcp payload len = s ↔ s.Ignores tcp len := by
  have hreceive := Socket.receive_of_established hs tcp payload len
  have hrcv : (s.takeAck tcp).rcvNxt = s.rcvNxt ∧ (s.takeAck tcp).rxTail = s.rxTail := by
    unfold Socket.takeAck
    split <;> exact ⟨rfl, rfl⟩
  rw [hreceive]
  simp only [Socket.Ignores, hs]
  constructor
  · intro h
    have hfin : hasFlag tcp.flags tcpFin = false := by
      by_contra hc
      rw [Bool.not_eq_false] at hc
      have := congrArg Socket.state h
      rw [Socket.takeFin, if_pos hc, hs] at this
      exact TcpState.noConfusion this
    rw [Socket.takeFin, if_neg (by rw [hfin]; decide)] at h
    refine ⟨fun hack => ?_, hfin, fun hpos hseq => ?_⟩
    · have hdata : ∀ x : Socket, (x.takeData tcp payload len).sndUna = x.sndUna := by
        intro x
        unfold Socket.takeData
        split
        · split
          · exact (store_fields x payload len).2.2.2.1
          · rfl
        · rfl
      have := congrArg Socket.sndUna h
      rw [hdata, Socket.takeAck, if_pos hack] at this
      exact this
    · rw [Socket.takeData, if_pos hpos, if_pos (by rw [hrcv.1]; exact hseq)] at h
      have htail : ((s.takeAck tcp).store payload len).rxTail = (s.takeAck tcp).rxTail := by
        rw [h, hrcv.2]
      have hspace := space_of_store hpos htail
      unfold Socket.takeAck at hspace
      split at hspace
      · exact hspace
      · exact hspace
  · rintro ⟨hack, hfin, hdata⟩
    have hsame : s.takeAck tcp = s := by
      unfold Socket.takeAck
      split
      · rename_i hc
        rw [hack hc]
      · rfl
    rw [hsame, Socket.takeFin, if_neg (by rw [hfin]; decide), Socket.takeData]
    split
    · rename_i hpos
      split
      · rename_i hseq
        exact store_of_space (hdata hpos hseq)
      · rfl
    · rfl

/-- Moving to another state on an acknowledgement. -/
theorem onAck_eq_iff {state : TcpState} (h : s.state ≠ state) :
    (if hasFlag tcp.flags tcpAck then { s with state := state } else s) = s ↔
      hasFlag tcp.flags tcpAck = false := by
  cases hasFlag tcp.flags tcpAck with
  | false => simp
  | true =>
    simp only [if_true, Bool.true_eq_false, iff_false]
    intro hc
    exact h (congrArg Socket.state hc).symm

/-- **A segment leaves a socket as it was exactly if it is ignored.** -/
theorem receive_eq_self_iff (s : Socket) (tcp : TcpHeader) (payload : ℕ → UInt8) (len : UInt16) :
    s.receive tcp payload len = s ↔ s.Ignores tcp len := by
  cases hs : s.state with
  | established => exact receive_established hs
  | synSent =>
    simp only [Socket.receive, Socket.Ignores, hs, Bool.and_eq_true]
    split
    · rename_i hflags
      split
      · rename_i hack
        refine iff_of_false (fun hc => ?_) fun hc => hc ⟨hflags.1, hflags.2, hack⟩
        have := congrArg Socket.state hc
        rw [hs] at this
        exact TcpState.noConfusion this
      · rename_i hack
        exact iff_of_true rfl fun hc => hack hc.2.2
    · rename_i hflags
      exact iff_of_true rfl fun hc => hflags ⟨hc.1, hc.2.1⟩
  | synRecv =>
    simp only [Socket.receive, Socket.Ignores, hs]
    exact onAck_eq_iff (by rw [hs]; exact TcpState.noConfusion)
  | closeWait =>
    simp only [Socket.receive, Socket.Ignores, hs]
    exact onAck_eq_iff (by rw [hs]; exact TcpState.noConfusion)
  | lastAck =>
    simp only [Socket.receive, Socket.Ignores, hs]
    exact onAck_eq_iff (by rw [hs]; exact TcpState.noConfusion)
  | _ => simp [Socket.receive, Socket.Ignores, hs]

/-! ## Every segment of every run -/

/-- The allocator does not hand out a socket that is in the list. -/
def Fresh (t : Stack) (c : Call) : Prop := ∀ block ∈ c.mem, block.addr ∉ t.sockets

instance Fresh.decidable (t : Stack) (c : Call) : Decidable (Fresh t c) :=
  inferInstanceAs (Decidable (∀ block ∈ c.mem, block.addr ∉ t.sockets))

theorem kmalloc_given (t : Stack) (mem : List Block) :
    (kmalloc (t.given mem)).1 = .null ∨ (kmalloc (t.given mem)).1 ∈ mem := by
  cases mem with
  | nil => exact Or.inl rfl
  | cons block rest => exact Or.inr (List.mem_cons_self ..)

/-- A socket found that does not listen has the ports. -/
theorem lookup_ports (h : t.lookup tcp.dstPort tcp.srcPort = some sock)
    (hs : (t.heap sock).state ≠ .listen) :
    (t.heap sock).localPort = tcp.dstPort ∧ (t.heap sock).remotePort = tcp.srcPort := by
  have := List.find?_some h
  simpa [Socket.accepts, hs] using this

/-- **A socket that does not listen**: the segment stays with its
connection exactly if the socket is of this peer, or ignores it. -/
theorem isolated_of_found (h : t.lookup tcp.dstPort tcp.srcPort = some sock)
    (hs : (t.heap sock).state ≠ .listen) :
    Isolated t (tcpRx (t.given mem) tcp payload len) addr tcp ↔
      (t.heap sock).remoteAddr = addr ∨ (t.heap sock).Ignores tcp len := by
  have hmem : sock ∈ t.sockets := List.mem_of_find?_eq_some h
  obtain ⟨hlocal, hremote⟩ := lookup_ports h hs
  have hheap := tcpRx_heap (t := t.given mem) payload len h hs
  have hsockets := tcpRx_sockets (t := t.given mem) payload len h hs
  rw [given_heap] at hheap
  rw [given_sockets] at hsockets
  constructor
  · intro hiso
    by_cases hsame : (t.heap sock).receive tcp payload len = t.heap sock
    · exact Or.inr ((receive_eq_self_iff ..).mp hsame)
    · refine Or.inl (hiso.changed sock hmem ?_).2.1
      rw [hheap, Function.update_self]
      exact hsame
  · intro hcond
    refine ⟨fun x _ hne => ?_, fun hne => absurd hsockets hne⟩
    rw [hheap, Function.update_apply] at hne
    split at hne
    · rename_i hx
      rw [hx] at hne ⊢
      rcases hcond with haddr | hignores
      · exact ⟨hlocal, haddr, hremote⟩
      · exact absurd ((receive_eq_self_iff ..).mpr hignores) hne
    · exact absurd rfl hne

/-- **A listening socket**: the segment stays with its connection exactly
if a new socket is made only where there is no connection. -/
theorem isolated_of_listen (h : t.lookup tcp.dstPort tcp.srcPort = some sock)
    (hs : (t.heap sock).state = .listen) (hfresh : ∀ block ∈ mem, block.addr ∉ t.sockets) :
    Isolated t (tcpRx (t.given mem) tcp payload len) addr tcp ↔
      (hasFlag tcp.flags tcpSyn = true → (kmalloc (t.given mem)).1.addr ≠ 0 → NoConn t addr tcp) := by
  rw [tcpRx_listen (t := t.given mem) h hs]
  rcases rxListen_cases (t.given mem) sock tcp with ⟨hno, hheap, hsockets, -⟩ |
    ⟨⟨hsyn, haddr⟩, ⟨s, -, hheap⟩, hsockets, -⟩
  · -- no answer: nothing changes
    refine iff_of_true ⟨fun x _ hne => absurd (congrFun hheap x) hne,
      fun hne => absurd hsockets hne⟩ fun hsyn haddr => ?_
    rcases hno with hno | hno
    · rw [hsyn] at hno
      exact Bool.noConfusion hno
    · exact absurd hno haddr
  · -- an answer: the new socket is at an address of its own
    have hnew : (kmalloc (t.given mem)).1.addr ∉ t.sockets := by
      rcases kmalloc_given t mem with hnull | hmem
      · rw [hnull] at haddr
        exact absurd rfl haddr
      · exact hfresh _ hmem
    constructor
    · intro hiso _ _
      refine hiso.listener ?_
      rw [hsockets, given_sockets]
      exact List.cons_ne_self _ _
    · intro hcond
      refine ⟨fun x hx hne => ?_, fun _ => hcond hsyn haddr⟩
      have hx' : x ≠ (kmalloc (t.given mem)).1.addr := by
        rintro rfl
        exact hnew hx
      rw [hheap, Function.update_of_ne hx'] at hne
      exact absurd rfl hne

/-- **When a segment stays with its connection.** For every segment of
every run of the calls of the file, from whatever peer. -/
theorem isolated_iff_routed {heap : ℕ → Socket} {device : Option UInt32} {calls : List Call}
    (h : Allowed Stack.step Fresh (tcpInit heap device) (calls ++ [⟨.rx tcp payload len, mem⟩]))
    (addr : UInt32) :
    let t := runFrom Stack.step (tcpInit heap device) calls
    Isolated t (t.step ⟨.rx tcp payload len, mem⟩) addr tcp ↔ Routed t mem addr tcp len := by
  intro t
  have hfresh : ∀ block ∈ mem, block.addr ∉ t.sockets := (Allowed.append.mp h).2.1
  change Isolated t (tcpRx (t.given mem) tcp payload len) addr tcp ↔ _
  unfold Routed
  cases hfound : t.lookup tcp.dstPort tcp.srcPort with
  | none =>
    rw [tcpRx_none (t := t.given mem) hfound]
    refine iff_of_true ⟨fun x _ hne => absurd rfl hne, fun hne => absurd rfl hne⟩ ?_
    intro sock hc
    cases hc
  | some sock =>
    have hone : ∀ P : ℕ → Prop, (∀ x, some sock = some x → P x) ↔ P sock :=
      fun P => ⟨fun hp => hp sock rfl, fun hp x hx => Option.some.inj hx ▸ hp⟩
    rw [hone]
    split
    · rename_i hs
      exact isolated_of_listen hfound hs hfresh
    · rename_i hs
      exact isolated_of_found hfound hs

/-- A connection to 192.168.0.5, and the answer to its SYN from there. -/
theorem isolated_iff_routed_peer :
    let blocks (l : List ℕ) : List Block := l.map fun a => ⟨a, noData⟩
    let calls : List Call :=
      [⟨.socket, blocks [1, 2, 3]⟩, ⟨.connect 1 0xC0A80005 80, blocks [4]⟩]
    let tcp : TcpHeader := ⟨80, 49152, 1000, 0x12345679, 5, tcpSyn ||| tcpAck, 0, 0, 0⟩
    let t := runFrom Stack.step (tcpInit (fun _ => Socket.zero) none) calls
    Isolated t (t.step ⟨.rx tcp noData 0, blocks [4]⟩) 0xC0A80005 tcp ↔
      Routed t (blocks [4]) 0xC0A80005 tcp 0 :=
  isolated_iff_routed (by decide +kernel) _

/-- The same answer from another host, 192.168.0.9, opens the connection
all the same. -/
theorem other_peer_establishes :
    let blocks (l : List ℕ) : List Block := l.map fun a => ⟨a, noData⟩
    let calls : List Call :=
      [⟨.socket, blocks [1, 2, 3]⟩, ⟨.connect 1 0xC0A80005 80, blocks [4]⟩]
    let tcp : TcpHeader := ⟨80, 49152, 1000, 0x12345679, 5, tcpSyn ||| tcpAck, 0, 0, 0⟩
    let t := runFrom Stack.step (tcpInit (fun _ => Socket.zero) none) calls
    Allowed Stack.step Fresh (tcpInit (fun _ => Socket.zero) none)
        (calls ++ [⟨.rx tcp noData 0, blocks [4]⟩]) ∧
      ¬ Isolated t (t.step ⟨.rx tcp noData 0, blocks [4]⟩) 0xC0A80009 tcp := by
  refine ⟨by decide +kernel, fun h => ?_⟩
  have hconn := h.changed 1 (by decide +kernel) fun hc =>
    absurd (congrArg Socket.state hc) (by decide +kernel)
  exact absurd hconn.2.1 (by decide +kernel)

end Tcp

end Kos
