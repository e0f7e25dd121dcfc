import Kos.Tcp.Buffer
/-!
# Tcp — what a segment does to a socket

`tcp_rx` finds one socket and, unless that socket is listening, writes
to it and to nothing else: `Socket.receive` is what it writes. Sending
an acknowledgement records a packet and leaves every socket as it was.
-/

namespace Kos

namespace Tcp

variable {t : Stack} {sock : ℕ} {tcp : TcpHeader} {payload data : ℕ → UInt8} {flags : UInt8}
  {len : UInt16}

/-! ## Allocation and writes -/

@[simp] theorem kmalloc_heap (t : Stack) : (kmalloc t).2.heap = t.heap := by
  unfold kmalloc
  split <;> rfl

@[simp] theorem kmalloc_sockets (t : Stack) : (kmalloc t).2.sockets = t.sockets := by
  unfold kmalloc
  split <;> rfl

@[simp] theorem kmalloc_sent (t : Stack) : (kmalloc t).2.sent = t.sent := by
  unfold kmalloc
  split <;> rfl

@[simp] theorem given_heap (t : Stack) (mem : List Block) : (t.given mem).heap = t.heap := rfl

@[simp] theorem given_sockets (t : Stack) (mem : List Block) :
    (t.given mem).sockets = t.sockets := rfl

@[simp] theorem modify_heap (t : Stack) (sock : ℕ) (f : Socket → Socket) :
    (t.modify sock f).heap = Function.update t.heap sock (f (t.heap sock)) := rfl

@[simp] theorem modify_sockets (t : Stack) (sock : ℕ) (f : Socket → Socket) :
    (t.modify sock f).sockets = t.sockets := rfl

@[simp] theorem modify_sent (t : Stack) (sock : ℕ) (f : Socket → Socket) :
    (t.modify sock f).sent = t.sent := rfl

/-! ## Sending -/

@[simp] theorem tcpTx_sockets (t : Stack) (sock : ℕ) (flags : UInt8) (data : ℕ → UInt8)
    (len : UInt16) : (tcpTx t sock flags data len).sockets = t.sockets := by
  simp only [tcpTx]
  split
  · rfl
  · split
    · exact kmalloc_sockets t
    · exact kmalloc_sockets t

/-- **Sending records a packet and moves `snd_nxt`**, or there was no
memory for one and nothing happens. -/
theorem tcpTx_cases (t : Stack) (sock : ℕ) (flags : UInt8) (data : ℕ → UInt8) (len : UInt16) :
    ((tcpTx t sock flags data len).heap = t.heap ∧ (tcpTx t sock flags data len).sent = t.sent) ∨
      ((tcpTx t sock flags data len).heap = Function.update t.heap sock
          { t.heap sock with sndNxt := advance flags len (t.heap sock).sndNxt } ∧
        ∃ p, (tcpTx t sock flags data len).sent = t.sent ++ [p] ∧
          p.tcp = txHeader (t.heap sock) flags data len ∧ p.data = Ring.read data 0 len.toNat) := by
  simp only [tcpTx]
  split
  · exact Or.inl ⟨rfl, rfl⟩
  · split
    · exact Or.inl ⟨kmalloc_heap t, kmalloc_sent t⟩
    · exact Or.inr ⟨by rw [modify_heap, kmalloc_heap], _, by rw [modify_sent, kmalloc_sent], rfl, rfl⟩

theorem tcpTx_heap (t : Stack) (sock : ℕ) (flags : UInt8) (data : ℕ → UInt8) (len : UInt16) :
    (tcpTx t sock flags data len).heap = t.heap ∨
      (tcpTx t sock flags data len).heap = Function.update t.heap sock
        { t.heap sock with sndNxt := advance flags len (t.heap sock).sndNxt } :=
  (tcpTx_cases t sock flags data len).imp And.left And.left

/-- A segment that takes no sequence numbers leaves the sockets alone. -/
theorem tcpTx_heap_of_advance (h : ∀ x, advance flags len x = x) :
    (tcpTx t sock flags data len).heap = t.heap := by
  rcases tcpTx_heap t sock flags data len with heq | heq
  · exact heq
  · rw [heq, h]
    exact Function.update_eq_self sock t.heap

@[simp] theorem tcpTx_ack_heap (t : Stack) (sock : ℕ) (data : ℕ → UInt8) :
    (tcpTx t sock tcpAck data 0).heap = t.heap :=
  tcpTx_heap_of_advance fun _ => rfl

@[simp] theorem tcpTx_synAck_heap (t : Stack) (sock : ℕ) (data : ℕ → UInt8) :
    (tcpTx t sock (tcpSyn ||| tcpAck) data 0).heap = t.heap :=
  tcpTx_heap_of_advance fun _ => rfl

/-- **At most one packet is sent**, with the header for the socket. -/
theorem tcpTx_sent (t : Stack) (sock : ℕ) (flags : UInt8) (data : ℕ → UInt8) (len : UInt16) :
    (tcpTx t sock flags data len).sent = t.sent ∨
      ∃ p, (tcpTx t sock flags data len).sent = t.sent ++ [p] ∧
        p.tcp = txHeader (t.heap sock) flags data len ∧ p.data = Ring.read data 0 len.toNat :=
  (tcpTx_cases t sock flags data len).imp And.right And.right

/-- The packet that is sent, field by field. -/
theorem tcpTx_packet (t : Stack) (sock : ℕ) (flags : UInt8) (data : ℕ → UInt8) (len : UInt16) :
    (tcpTx t sock flags data len).sent = t.sent ∨
      (tcpTx t sock flags data len).sent = t.sent ++
        [⟨(t.heap sock).remoteAddr, txHeader (t.heap sock) flags data len,
          Ring.read data 0 len.toNat, tcpHeaderSize + len⟩] := by
  simp only [tcpTx]
  split
  · exact Or.inl rfl
  · split
    · exact Or.inl (kmalloc_sent t)
    · exact Or.inr (by rw [modify_sent, kmalloc_sent, kmalloc_heap])

/-- Sending changes nothing of a socket but `snd_nxt`. -/
theorem tcpTx_self (t : Stack) (sock : ℕ) (flags : UInt8) (data : ℕ → UInt8) (len : UInt16) :
    ((tcpTx t sock flags data len).heap sock).state = (t.heap sock).state ∧
      ((tcpTx t sock flags data len).heap sock).sndUna = (t.heap sock).sndUna := by
  rcases tcpTx_heap t sock flags data len with h | h
  · rw [h]
    exact ⟨rfl, rfl⟩
  · rw [h, Function.update_self]
    exact ⟨rfl, rfl⟩

/-! ## New sockets -/

/-- **`tcp_socket` links a new socket at the address it was given**, or
there was no memory. -/
theorem tcpSocket_cases (t : Stack) :
    ((kmalloc t).1.addr = 0 ∧ tcpSocket t = (0, (kmalloc t).2)) ∨
      ((kmalloc t).1.addr ≠ 0 ∧ (tcpSocket t).1 = (kmalloc t).1.addr ∧
        (tcpSocket t).2.sockets = (kmalloc t).1.addr :: t.sockets ∧
        (tcpSocket t).2.sent = t.sent ∧
        ∃ s, (s.state = .closed ∧ s.rxHead = 0 ∧ s.rxTail = 0) ∧
          (tcpSocket t).2.heap = Function.update t.heap (kmalloc t).1.addr s) := by
  simp only [tcpSocket]
  split
  · rename_i h
    exact Or.inl ⟨h, rfl⟩
  · rename_i h
    exact Or.inr ⟨h, rfl, by simp only [kmalloc_sockets], by simp only [kmalloc_sent],
      _, ⟨rfl, rfl, rfl⟩, by simp only [kmalloc_heap]; rfl⟩

/-- **A listening socket answers a SYN with a new socket**, and does
nothing else. -/
theorem rxListen_cases (t : Stack) (sock : ℕ) (tcp : TcpHeader) :
    let r := rxListen t sock tcp
    ((hasFlag tcp.flags tcpSyn = false ∨ (kmalloc t).1.addr = 0) ∧
      r.heap = t.heap ∧ r.sockets = t.sockets ∧ r.sent = t.sent) ∨
    ((hasFlag tcp.flags tcpSyn = true ∧ (kmalloc t).1.addr ≠ 0) ∧
      (∃ s, (s.state = .synRecv ∧ s.rxHead = 0 ∧ s.rxTail = 0) ∧
        r.heap = Function.update t.heap (kmalloc t).1.addr s) ∧
      r.sockets = (kmalloc t).1.addr :: t.sockets ∧
      (r.sent = t.sent ∨
        ∃ p, r.sent = t.sent ++ [p] ∧ p.tcp.flags = tcpSyn ||| tcpAck ∧
          p.tcp.ack = tcp.seq + 1 ∧ p.data = [])) := by
  intro r
  cases hsyn : hasFlag tcp.flags tcpSyn with
  | false =>
    have hr : r = t := by simp [r, rxListen, hsyn]
    rw [hr]
    exact Or.inl ⟨Or.inl rfl, rfl, rfl, rfl⟩
  | true =>
    rcases tcpSocket_cases t with ⟨hnull, heq⟩ | ⟨haddr, hfst, hsockets, hsent, s, hs, hheap⟩
    · have hr : r = (kmalloc t).2 := by simp [r, rxListen, hsyn, heq]
      rw [hr]
      exact Or.inl ⟨Or.inr hnull, kmalloc_heap t, kmalloc_sockets t, kmalloc_sent t⟩
    · refine Or.inr ⟨⟨rfl, haddr⟩, ?_⟩
      simp only [r, rxListen, hsyn, if_true, hfst, if_neg haddr]
      generalize (tcpSocket t).2 = t₁ at *
      -- the two writes are to the new socket, the listening one is only read
      have hself : t₁.heap (kmalloc t).1.addr = s := by rw [hheap, Function.update_self]
      refine ⟨⟨s.accept (t₁.heap sock) tcp, ⟨rfl, hs.2⟩, ?_⟩, ?_, ?_⟩
      · rw [← hself]
        rw [tcpTx_synAck_heap, modify_heap, hheap, Function.update_idem]
      · rw [tcpTx_sockets, modify_sockets, hsockets]
      · obtain h | ⟨p, h, htcp, hdata⟩ := tcpTx_sent
          (t₁.modify (kmalloc t).1.addr fun s => s.accept (t₁.heap sock) tcp) (kmalloc t).1.addr
          (tcpSyn ||| tcpAck) noData 0
        · exact Or.inl (h.trans hsent)
        · refine Or.inr ⟨p, ?_, by rw [htcp]; rfl, ?_, hdata⟩
          · rw [h, modify_sent, hsent]
          · rw [htcp, modify_heap, Function.update_self]
            rfl

/-! ## Connecting -/

/-- What `tcp_connect` writes before it sends the SYN. -/
def connecting (t : Stack) (sock : ℕ) (addr : UInt32) (port : UInt16) : Stack :=
  let t := t.modify sock fun s => { s with remoteAddr := addr, remotePort := port }
  let t :=
    if (t.heap sock).localPort = 0 then
      { t.modify sock fun s => { s with localPort := t.nextPort } with nextPort := t.nextPort + 1 }
    else t
  let t :=
    if (t.heap sock).localAddr = 0 then
      match t.device with
      | some ip => t.modify sock fun s => { s with localAddr := ip }
      | none => t
    else t
  t.modify sock fun s =>
    { s with state := .synSent, sndUna := t.tcpSeqNum, sndNxt := t.tcpSeqNum + 1 }

/-- A socket that connects, with the address and the port it is given
where it has none. -/
def Socket.connected (s : Socket) (t : Stack) (addr : UInt32) (port : UInt16) : Socket :=
  { s with
    localAddr := if s.localAddr = 0 then t.device.getD 0 else s.localAddr
    localPort := if s.localPort = 0 then t.nextPort else s.localPort
    remoteAddr := addr, remotePort := port, state := .synSent, sndUna := t.tcpSeqNum,
    sndNxt := t.tcpSeqNum + 1 }

/-- **What is written is one write to the socket.** -/
theorem connecting_heap (t : Stack) (sock : ℕ) (addr : UInt32) (port : UInt16) :
    (connecting t sock addr port).heap =
      Function.update t.heap sock ((t.heap sock).connected t addr port) := by
  unfold connecting Socket.connected
  -- each of the tests is of the socket as it was
  by_cases hport : (t.heap sock).localPort = 0
  · by_cases haddr : (t.heap sock).localAddr = 0
    · cases hdevice : t.device with
      | none => simp [Stack.modify, hport, haddr, hdevice]
      | some ip => simp [Stack.modify, hport, haddr, hdevice]
    · simp [Stack.modify, hport, haddr]
  · by_cases haddr : (t.heap sock).localAddr = 0
    · cases hdevice : t.device with
      | none => simp [Stack.modify, hport, haddr, hdevice]
      | some ip => simp [Stack.modify, hport, haddr, hdevice]
    · simp [Stack.modify, hport, haddr]

theorem connecting_self (t : Stack) (sock : ℕ) (addr : UInt32) (port : UInt16) :
    (connecting t sock addr port).heap sock = (t.heap sock).connected t addr port := by
  rw [connecting_heap, Function.update_self]

theorem connecting_of_ne {x : ℕ} (h : x ≠ sock) (addr : UInt32) (port : UInt16) :
    (connecting t sock addr port).heap x = t.heap x := by
  rw [connecting_heap, Function.update_of_ne h]

/-- **Nothing else changes**, but that the next port goes up if it was
taken. -/
theorem connecting_others (t : Stack) (sock : ℕ) (addr : UInt32) (port : UInt16) :
    let r := connecting t sock addr port
    r.sockets = t.sockets ∧ r.sent = t.sent ∧ r.device = t.device ∧ r.tcpSeqNum = t.tcpSeqNum ∧
      r.nextPort = if (t.heap sock).localPort = 0 then t.nextPort + 1 else t.nextPort := by
  intro r
  have hport : ((t.modify sock fun s => { s with remoteAddr := addr, remotePort := port }).heap
      sock).localPort = (t.heap sock).localPort := by rw [modify_heap, Function.update_self]
  simp only [r, connecting, hport]
  split
  · split
    · split <;> exact ⟨rfl, rfl, rfl, rfl, rfl⟩
    · exact ⟨rfl, rfl, rfl, rfl, rfl⟩
  · split
    · split <;> exact ⟨rfl, rfl, rfl, rfl, rfl⟩
    · exact ⟨rfl, rfl, rfl, rfl, rfl⟩

theorem tcpConnect_refused (addr : UInt32) (port : UInt16)
    (h : sock = 0 ∨ (t.heap sock).state ≠ .closed) : tcpConnect t sock addr port = (false, t) :=
  if_pos h

/-- `tcp_connect` on a closed socket writes to it and sends a SYN. -/
theorem tcpConnect_closed (addr : UInt32) (port : UInt16) (hsock : sock ≠ 0)
    (h : (t.heap sock).state = .closed) :
    (tcpConnect t sock addr port).2 = tcpTx (connecting t sock addr port) sock tcpSyn noData 0 := by
  have hopen : ¬ (sock = 0 ∨ (t.heap sock).state ≠ .closed) := by simp [hsock, h]
  have heq : tcpConnect t sock addr port = _ := if_neg hopen
  rw [heq]
  rfl

/-! ## Receiving -/

/-- The acknowledgement of a segment on an established connection. -/
def Socket.takeAck (s : Socket) (tcp : TcpHeader) : Socket :=
  if hasFlag tcp.flags tcpAck then { s with sndUna := tcp.ack } else s

/-- The data of a segment on an established connection. -/
def Socket.takeData (s : Socket) (tcp : TcpHeader) (payload : ℕ → UInt8) (len : UInt16) : Socket :=
  if 0 < len then if tcp.seq = s.rcvNxt then s.store payload len else s else s

/-- The end of the stream on an established connection. -/
def Socket.takeFin (s : Socket) (tcp : TcpHeader) : Socket :=
  if hasFlag tcp.flags tcpFin then { s with state := .closeWait, rcvNxt := s.rcvNxt + 1 } else s

/-- **What a segment does to a socket that is not listening.** -/
def Socket.receive (s : Socket) (tcp : TcpHeader) (payload : ℕ → UInt8) (len : UInt16) : Socket :=
  match s.state with
  | .synSent =>
    if hasFlag tcp.flags tcpSyn && hasFlag tcp.flags tcpAck then
      if tcp.ack = s.sndUna + 1 then
        { s with state := .established, rcvNxt := tcp.seq + 1, sndUna := tcp.ack }
      else s
    else s
  | .synRecv => if hasFlag tcp.flags tcpAck then { s with state := .established } else s
  | .established => ((s.takeAck tcp).takeData tcp payload len).takeFin tcp
  | .closeWait => if hasFlag tcp.flags tcpAck then { s with state := .closed } else s
  | .lastAck => if hasFlag tcp.flags tcpAck then { s with state := .closed } else s
  | _ => s

/-- On an established connection the three stages follow each other. -/
theorem Socket.receive_of_established {s : Socket} (hs : s.state = .established) (tcp : TcpHeader)
    (payload : ℕ → UInt8) (len : UInt16) : s.receive tcp payload len =
      ((s.takeAck tcp).takeData tcp payload len).takeFin tcp := by
  rw [Socket.receive, hs]

theorem rxOnAck_heap (t : Stack) (sock : ℕ) (tcp : TcpHeader) (state : TcpState) :
    (rxOnAck t sock tcp state).heap = Function.update t.heap sock
      (if hasFlag tcp.flags tcpAck then { t.heap sock with state := state } else t.heap sock) := by
  unfold rxOnAck
  split
  · rfl
  · exact (Function.update_eq_self sock t.heap).symm

theorem rxSynSent_heap (hs : (t.heap sock).state = .synSent) :
    (rxSynSent t sock tcp).heap =
      Function.update t.heap sock ((t.heap sock).receive tcp payload len) := by
  simp only [rxSynSent, Socket.receive, hs]
  split
  · split
    · rw [tcpTx_ack_heap, modify_heap]
    · exact (Function.update_eq_self sock t.heap).symm
  · exact (Function.update_eq_self sock t.heap).symm

theorem rxEstablished_heap (hs : (t.heap sock).state = .established) :
    (rxEstablished t sock tcp payload len).heap =
      Function.update t.heap sock ((t.heap sock).receive tcp payload len) := by
  -- the stages of the branch, each as a write to the socket
  have hack : ∀ t : Stack, (if hasFlag tcp.flags tcpAck then
      t.modify sock fun s => { s with sndUna := tcp.ack } else t).heap =
      Function.update t.heap sock ((t.heap sock).takeAck tcp) := by
    intro t
    unfold Socket.takeAck
    split
    · rfl
    · exact (Function.update_eq_self sock t.heap).symm
  have hdata : ∀ t : Stack, (if 0 < len then if tcp.seq = (t.heap sock).rcvNxt then
      tcpTx (t.modify sock fun s => s.store payload len) sock tcpAck noData 0 else t else t).heap =
      Function.update t.heap sock ((t.heap sock).takeData tcp payload len) := by
    intro t
    unfold Socket.takeData
    split
    · split
      · rw [tcpTx_ack_heap, modify_heap]
      · exact (Function.update_eq_self sock t.heap).symm
    · exact (Function.update_eq_self sock t.heap).symm
  have hfin : ∀ t : Stack, (if hasFlag tcp.flags tcpFin then
      tcpTx (t.modify sock fun s => { s with state := .closeWait, rcvNxt := s.rcvNxt + 1 }) sock
        tcpAck noData 0 else t).heap =
      Function.update t.heap sock ((t.heap sock).takeFin tcp) := by
    intro t
    unfold Socket.takeFin
    split
    · rw [tcpTx_ack_heap, modify_heap]
    · exact (Function.update_eq_self sock t.heap).symm
  have hreceive := Socket.receive_of_established hs tcp payload len
  rw [hreceive]
  simp only [rxEstablished]
  rw [hfin, hdata, hack]
  simp only [Function.update_self, Function.update_idem]

/-- A segment that finds no socket is dropped. -/
theorem tcpRx_none (h : t.lookup tcp.dstPort tcp.srcPort = none) :
    tcpRx t tcp payload len = t := by
  unfold tcpRx
  rw [h]

/-- A segment that finds a listening socket is answered by it. -/
theorem tcpRx_listen (h : t.lookup tcp.dstPort tcp.srcPort = some sock)
    (hs : (t.heap sock).state = .listen) : tcpRx t tcp payload len = rxListen t sock tcp := by
  unfold tcpRx
  rw [h]
  simp only [hs]

/-- **A segment writes to the socket found**, if that is not listening. -/
theorem tcpRx_heap (payload : ℕ → UInt8) (len : UInt16)
    (h : t.lookup tcp.dstPort tcp.srcPort = some sock)
    (hs : (t.heap sock).state ≠ .listen) :
    (tcpRx t tcp payload len).heap =
      Function.update t.heap sock ((t.heap sock).receive tcp payload len) := by
  simp only [tcpRx, h]
  cases hstate : (t.heap sock).state with
  | listen => exact absurd hstate hs
  | synSent => exact rxSynSent_heap hstate
  | established => exact rxEstablished_heap hstate
  | synRecv => simpa [Socket.receive, hstate] using rxOnAck_heap t sock tcp .established
  | closeWait => simpa [Socket.receive, hstate] using rxOnAck_heap t sock tcp .closed
  | lastAck => simpa [Socket.receive, hstate] using rxOnAck_heap t sock tcp .closed
  | closed => simp [Socket.receive, hstate]
  | finWait1 => simp [Socket.receive, hstate]
  | finWait2 => simp [Socket.receive, hstate]
  | closing => simp [Socket.receive, hstate]
  | timeWait => simp [Socket.receive, hstate]

/-- The list of sockets stays, if the socket found is not listening. -/
theorem tcpRx_sockets (payload : ℕ → UInt8) (len : UInt16)
    (h : t.lookup tcp.dstPort tcp.srcPort = some sock)
    (hs : (t.heap sock).state ≠ .listen) :
    (tcpRx t tcp payload len).sockets = t.sockets := by
  have hack : ∀ state, (rxOnAck t sock tcp state).sockets = t.sockets := by
    intro state
    unfold rxOnAck
    split <;> rfl
  simp only [tcpRx, h]
  cases hstate : (t.heap sock).state with
  | listen => exact absurd hstate hs
  | synSent =>
    simp only [rxSynSent]
    split
    · split
      · rw [tcpTx_sockets, modify_sockets]
      · rfl
    · rfl
  | established =>
    simp only [rxEstablished]
    repeat' split
    all_goals simp only [tcpTx_sockets, modify_sockets]
  | synRecv => exact hack _
  | closeWait => exact hack _
  | lastAck => exact hack _
  | _ => rfl

/-- The stages change no ports, and make no socket listen. -/
theorem Socket.take_ports (s : Socket) (tcp : TcpHeader) (payload : ℕ → UInt8) (len : UInt16) :
    ((s.takeAck tcp).localPort = s.localPort ∧ (s.takeAck tcp).remotePort = s.remotePort ∧
      (s.takeAck tcp).state = s.state) ∧
    ((s.takeData tcp payload len).localPort = s.localPort ∧
      (s.takeData tcp payload len).remotePort = s.remotePort ∧
      (s.takeData tcp payload len).state = s.state) ∧
    ((s.takeFin tcp).localPort = s.localPort ∧ (s.takeFin tcp).remotePort = s.remotePort) := by
  refine ⟨?_, ?_, ?_⟩
  · unfold Socket.takeAck
    split <;> exact ⟨rfl, rfl, rfl⟩
  · obtain ⟨hlocal, hremote, hstate, -⟩ := store_fields s payload len
    unfold Socket.takeData
    split
    · split
      · exact ⟨hlocal, hremote, hstate⟩
      · exact ⟨rfl, rfl, rfl⟩
    · exact ⟨rfl, rfl, rfl⟩
  · unfold Socket.takeFin
    split <;> exact ⟨rfl, rfl⟩

/-- **A segment changes no ports.** -/
theorem Socket.receive_ports (s : Socket) (tcp : TcpHeader) (payload : ℕ → UInt8) (len : UInt16) :
    (s.receive tcp payload len).localPort = s.localPort ∧
      (s.receive tcp payload len).remotePort = s.remotePort := by
  unfold Socket.receive
  cases s.state with
  | established =>
    -- one stage after the other
    obtain ⟨⟨hl, hr, -⟩, -⟩ := s.take_ports tcp payload len
    obtain ⟨-, ⟨hl', hr', -⟩, -⟩ := (s.takeAck tcp).take_ports tcp payload len
    obtain ⟨-, -, hl'', hr''⟩ := ((s.takeAck tcp).takeData tcp payload len).take_ports tcp payload len
    exact ⟨hl''.trans (hl'.trans hl), hr''.trans (hr'.trans hr)⟩
  | synSent =>
    simp only
    split
    · split <;> exact ⟨rfl, rfl⟩
    · exact ⟨rfl, rfl⟩
  | synRecv => simp only; split <;> exact ⟨rfl, rfl⟩
  | closeWait => simp only; split <;> exact ⟨rfl, rfl⟩
  | lastAck => simp only; split <;> exact ⟨rfl, rfl⟩
  | _ => exact ⟨rfl, rfl⟩

/-! ## Reading -/

/-- **`tcp_recv` returns what leaves the queue** and changes nothing else
of the socket. -/
theorem tcpRecv_self (t : Stack) (sock : ℕ) (len : UInt16) :
    let r := tcpRecv t sock len
    r.1.getD [] ++ (r.2.heap sock).queue = (t.heap sock).queue ∧
      (r.2.heap sock).avail ≤ (t.heap sock).avail ∧ (r.2.heap sock).state = (t.heap sock).state ∧
      (r.2.heap sock).rcvNxt = (t.heap sock).rcvNxt := by
  simp only [tcpRecv]
  split
  · exact ⟨rfl, Nat.le_refl _, rfl, rfl⟩
  · split
    · exact ⟨rfl, Nat.le_refl _, rfl, rfl⟩
    · split
      · exact ⟨rfl, Nat.le_refl _, rfl, rfl⟩
      · obtain ⟨havail, hqueue⟩ := fetch_queue (t.heap sock) len
        have hself : (t.modify sock fun s =>
            { s with rxHead := s.rxHead + ((t.heap sock).fetch len).2.toUInt32 }).heap sock =
            (t.heap sock).fetched len := Function.update_self ..
        simp only [hself]
        exact ⟨hqueue.symm, by omega, rfl, rfl⟩

/-- **`tcp_recv` returns the oldest bytes** of a connection that is open
for reading. -/
theorem tcpRecv_open (hsock : sock ≠ 0)
    (hopen : (t.heap sock).state = .established ∨ (t.heap sock).state = .closeWait) (len : UInt16) :
    (tcpRecv t sock len).1 = some ((t.heap sock).queue.take len.toNat) := by
  have hstate : ¬ ((t.heap sock).state ≠ .established ∧ (t.heap sock).state ≠ .closeWait) :=
    fun hc => hopen.elim hc.1 hc.2
  simp only [tcpRecv, if_neg hsock, if_neg hstate]
  split
  · rename_i hempty
    have hqueue : (t.heap sock).queue = [] := by
      rw [← List.length_eq_zero_iff, length_queue, Socket.avail, hempty]
      rfl
    rw [hqueue, List.take_nil]
  · rw [← fetch_eq_take]

end Tcp

end Kos
