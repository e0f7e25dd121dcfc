import Kos.Tcp.Handshake
import Kos.Common.Run
/-!
# Tcp — the window that is advertised

A segment advertises the `window` of its socket. `tcp_socket` sets it to
the size of the receive buffer, which is 65536 and does not fit: what
the field holds is 0. Nothing writes to it again, so every segment of
every run advertises no room at all, which is right only while the
buffer is full.
-/

namespace Kos

namespace Tcp

variable {t t' : Stack} {sock : ℕ} {tcp : TcpHeader} {payload data : ℕ → UInt8} {flags : UInt8}
  {len : UInt16}

/-! ## The calls of `tcp_tx` -/

/-- A call of `tcp_tx`, and the stack at that moment. -/
structure TxCall where
  stack : Stack
  sock : ℕ
  flags : UInt8
  data : ℕ → UInt8
  len : UInt16

/-- The stack after the call. -/
def TxCall.run (x : TxCall) : Stack := tcpTx x.stack x.sock x.flags x.data x.len

/-- The segment that is emitted, if one is. -/
def TxCall.packets (x : TxCall) : List Packet := sentSince x.stack x.run

/-- The `tcp_tx` of `tcp_connect`. -/
def connectTx (t : Stack) (sock : ℕ) (addr : UInt32) (port : UInt16) : List TxCall :=
  if sock = 0 ∨ (t.heap sock).state ≠ .closed then []
  else [⟨connecting t sock addr port, sock, tcpSyn, noData, 0⟩]

/-- The `tcp_tx` of `tcp_send`. -/
def sendTx (t : Stack) (sock : ℕ) (data : Block) (len : UInt16) : List TxCall :=
  if sock = 0 ∨ (t.heap sock).state ≠ .established then []
  else if data.addr = 0 ∨ len = 0 then []
  else [⟨t, sock, tcpAck ||| tcpPsh, data.bytes, len⟩]

/-- The `tcp_tx` of `tcp_close`. -/
def closeTx (t : Stack) (sock : ℕ) : List TxCall :=
  if sock = 0 then []
  else
    match (t.heap sock).state with
    | .established =>
      [⟨t.modify sock fun s => { s with state := .finWait1 }, sock, tcpFin ||| tcpAck, noData, 0⟩]
    | .closeWait =>
      [⟨t.modify sock fun s => { s with state := .lastAck }, sock, tcpFin ||| tcpAck, noData, 0⟩]
    | _ => []

/-- The `tcp_tx` of a listening socket. -/
def listenTx (t : Stack) (sock : ℕ) (tcp : TcpHeader) : List TxCall :=
  if hasFlag tcp.flags tcpSyn then
    let (newSock, t) := tcpSocket t
    if newSock = 0 then []
    else
      [⟨t.modify newSock fun s => s.accept (t.heap sock) tcp, newSock, tcpSyn ||| tcpAck, noData, 0⟩]
  else []

/-- The `tcp_tx` of a socket that has sent its SYN. -/
def synSentTx (t : Stack) (sock : ℕ) (tcp : TcpHeader) : List TxCall :=
  if hasFlag tcp.flags tcpSyn && hasFlag tcp.flags tcpAck then
    if tcp.ack = (t.heap sock).sndUna + 1 then
      [⟨t.modify sock fun s =>
        { s with state := .established, rcvNxt := tcp.seq + 1, sndUna := tcp.ack },
        sock, tcpAck, noData, 0⟩]
    else []
  else []

/-- The `tcp_tx` for data, on an established connection. -/
def dataTx (t : Stack) (sock : ℕ) (tcp : TcpHeader) (payload : ℕ → UInt8) (len : UInt16) :
    List TxCall :=
  if 0 < len then
    if tcp.seq = (t.heap sock).rcvNxt then
      [⟨t.modify sock fun s => s.store payload len, sock, tcpAck, noData, 0⟩]
    else []
  else []

/-- The `tcp_tx` for the end of the stream, on an established connection. -/
def finTx (t : Stack) (sock : ℕ) (tcp : TcpHeader) : List TxCall :=
  if hasFlag tcp.flags tcpFin then
    [⟨t.modify sock fun s => { s with state := .closeWait, rcvNxt := s.rcvNxt + 1 },
      sock, tcpAck, noData, 0⟩]
  else []

/-- The stack after the last of some calls, `t` if there are none. -/
def afterTx (t : Stack) (xs : List TxCall) : Stack := xs.foldl (fun _ x => x.run) t

/-- The `tcp_tx` of an established connection. -/
def establishedTx (t : Stack) (sock : ℕ) (tcp : TcpHeader) (payload : ℕ → UInt8) (len : UInt16) :
    List TxCall :=
  let t :=
    if hasFlag tcp.flags tcpAck then t.modify sock fun s => { s with sndUna := tcp.ack } else t
  let xs := dataTx t sock tcp payload len
  xs ++ finTx (afterTx t xs) sock tcp

/-- The `tcp_tx` of `tcp_rx`. -/
def rxTx (t : Stack) (tcp : TcpHeader) (payload : ℕ → UInt8) (len : UInt16) : List TxCall :=
  match t.lookup tcp.dstPort tcp.srcPort with
  | none => []
  | some sock =>
    match (t.heap sock).state with
    | .listen => listenTx t sock tcp
    | .synSent => synSentTx t sock tcp
    | .established => establishedTx t sock tcp payload len
    | _ => []

/-- **The calls of `tcp_tx` that a call makes**, in order. -/
def Stack.txCalls (t : Stack) (c : Call) : List TxCall :=
  match c.op with
  | .connect sock addr port => connectTx (t.given c.mem) sock addr port
  | .send sock data len => sendTx (t.given c.mem) sock data len
  | .close sock => closeTx (t.given c.mem) sock
  | .rx tcp payload len => rxTx (t.given c.mem) tcp payload len
  | _ => []

/-! ## The windows -/

/-- **Every window is shut**: the sockets of the list advertise no room. -/
def Stack.Shut (t : Stack) : Prop := ∀ x ∈ t.sockets, (t.heap x).window = 0

theorem Stack.Shut.modify (h : t.Shut) {f : Socket → Socket}
    (hf : ∀ s, (f s).window = s.window) : (t.modify sock f).Shut := by
  intro x hx
  rw [modify_heap]
  by_cases hself : x = sock
  · rw [hself, Function.update_self, hf]
    exact h sock (hself ▸ hx)
  · rw [Function.update_of_ne hself]
    exact h x hx

theorem Stack.Shut.kmalloc (h : t.Shut) : (kmalloc t).2.Shut := by
  intro x hx
  rw [kmalloc_sockets] at hx
  rw [kmalloc_heap]
  exact h x hx

theorem Stack.Shut.tcpTx (h : t.Shut) (sock : ℕ) (flags : UInt8) (data : ℕ → UInt8)
    (len : UInt16) : (tcpTx t sock flags data len).Shut := by
  intro x hx
  rw [tcpTx_sockets] at hx
  rcases tcpTx_heap t sock flags data len with heap | heap
  · rw [heap]
    exact h x hx
  · have hset : (t.modify sock fun s => { s with sndNxt := advance flags len s.sndNxt }).Shut :=
      h.modify fun _ => rfl
    rw [heap]
    exact hset x hx

/-- **The window of a new socket** is the size of the buffer, cut to 16
bits. -/
theorem Stack.Shut.tcpSocket (h : t.Shut) : (tcpSocket t).2.Shut := by
  simp only [Tcp.tcpSocket]
  split
  · exact h.kmalloc
  · intro x hx
    by_cases hnew : x = (Tcp.kmalloc t).1.addr
    · simp only [hnew, Function.update_self]
      rfl
    · rcases List.mem_cons.mp hx with hx | hx
      · exact absurd hx hnew
      · simp only [Function.update_of_ne hnew]
        exact h.kmalloc.kmalloc.kmalloc x hx

/-! ## What a call emits -/

/-- **A call is accounted for**: what it sends are the segments of these
calls of `tcp_tx`, and the windows stay shut all the way. -/
structure Accounts (t t' : Stack) (xs : List TxCall) : Prop where
  sent : t'.sent = t.sent ++ xs.flatMap TxCall.packets
  shut : t.Shut → t'.Shut ∧ ∀ x ∈ xs, x.stack.Shut

theorem TxCall.run_sent (x : TxCall) : x.run.sent = x.stack.sent ++ x.packets := by
  rcases tcpTx_packet x.stack x.sock x.flags x.data x.len with h | h
  · rw [TxCall.packets, TxCall.run, sentSince_self h.symm, h, List.append_nil]
  · rw [TxCall.packets, TxCall.run, sentSince_append h, h]

theorem Accounts.nil (hsent : t'.sent = t.sent) (hshut : t.Shut → t'.Shut) : Accounts t t' [] :=
  ⟨by rw [hsent, List.flatMap_nil, List.append_nil],
    fun h => ⟨hshut h, fun x hx => absurd hx List.not_mem_nil⟩⟩

/-- One call of `tcp_tx`. -/
theorem accounts_tcpTx (hsent : t'.sent = t.sent) (hshut : t.Shut → t'.Shut) (sock : ℕ)
    (flags : UInt8) (data : ℕ → UInt8) (len : UInt16) :
    Accounts t (tcpTx t' sock flags data len) [⟨t', sock, flags, data, len⟩] := by
  refine ⟨?_, fun h => ⟨(hshut h).tcpTx sock flags data len, fun y hy => ?_⟩⟩
  · rw [List.flatMap_singleton, ← hsent]
    exact TxCall.run_sent ⟨t', sock, flags, data, len⟩
  · rw [List.mem_singleton.mp hy]
    exact hshut h

theorem Accounts.trans {t'' : Stack} {xs ys : List TxCall} (h : Accounts t t' xs)
    (h' : Accounts t' t'' ys) : Accounts t t'' (xs ++ ys) := by
  refine ⟨?_, fun hshut => ?_⟩
  · rw [h'.sent, h.sent, List.flatMap_append, List.append_assoc]
  · obtain ⟨hmid, hxs⟩ := h.shut hshut
    obtain ⟨hend, hys⟩ := h'.shut hmid
    exact ⟨hend, fun x hx => (List.mem_append.mp hx).elim (hxs x) (hys x)⟩

/-- A write that leaves the window. -/
theorem Accounts.modify {xs : List TxCall} (h : Accounts t t' xs) {f : Socket → Socket}
    (hf : ∀ s, (f s).window = s.window) : Accounts t (t'.modify sock f) xs := by
  have hset := h.trans (Accounts.nil (modify_sent t' sock f) fun hs => hs.modify hf)
  rwa [List.append_nil] at hset

/-- A call of `tcp_tx` after a write that leaves the window. -/
theorem accounts_modify_tcpTx {f : Socket → Socket} (hf : ∀ s, (f s).window = s.window)
    (flags : UInt8) (data : ℕ → UInt8) (len : UInt16) :
    Accounts t (tcpTx (t.modify sock f) sock flags data len)
      [⟨t.modify sock f, sock, flags, data, len⟩] :=
  accounts_tcpTx (modify_sent t sock f) (fun h => h.modify hf) sock flags data len

theorem Accounts.refl (t : Stack) : Accounts t t [] := Accounts.nil rfl id

theorem accounts_connecting (t : Stack) (sock : ℕ) (addr : UInt32) (port : UInt16) :
    Accounts t (connecting t sock addr port) [] := by
  obtain ⟨hsockets, hsent, -⟩ := connecting_others t sock addr port
  refine Accounts.nil hsent fun h x hx => ?_
  rw [hsockets] at hx
  by_cases hself : x = sock
  · rw [hself] at hx
    rw [hself, connecting_self]
    exact h sock hx
  · rw [connecting_of_ne hself]
    exact h x hx

theorem accounts_tcpConnect (t : Stack) (sock : ℕ) (addr : UInt32) (port : UInt16) :
    Accounts t (tcpConnect t sock addr port).2 (connectTx t sock addr port) := by
  unfold tcpConnect connectTx
  split
  · exact Accounts.refl t
  · have hwrites := accounts_connecting t sock addr port
    have hsent : (connecting t sock addr port).sent = t.sent := by
      rw [hwrites.sent, List.flatMap_nil, List.append_nil]
    exact accounts_tcpTx hsent (fun h => (hwrites.shut h).1) sock tcpSyn noData 0

theorem accounts_tcpSend (t : Stack) (sock : ℕ) (data : Block) (len : UInt16) :
    Accounts t (tcpSend t sock data len).2 (sendTx t sock data len) := by
  unfold tcpSend sendTx
  split
  · exact Accounts.refl t
  · split
    · exact Accounts.refl t
    · exact accounts_tcpTx rfl id sock _ _ len

theorem accounts_tcpClose (t : Stack) (sock : ℕ) :
    Accounts t (tcpClose t sock) (closeTx t sock) := by
  unfold tcpClose closeTx
  split
  · exact Accounts.refl t
  · cases (t.heap sock).state with
    | established => exact accounts_modify_tcpTx (fun _ => by rfl) _ _ _
    | closeWait => exact accounts_modify_tcpTx (fun _ => by rfl) _ _ _
    | synSent => exact (Accounts.refl t).modify fun _ => rfl
    | synRecv => exact (Accounts.refl t).modify fun _ => rfl
    | closed => exact (Accounts.refl t).modify fun _ => rfl
    | _ => exact Accounts.refl t

/-! ## What a segment makes a socket emit -/

theorem accounts_rxListen (t : Stack) (sock : ℕ) (tcp : TcpHeader) :
    Accounts t (rxListen t sock tcp) (listenTx t sock tcp) := by
  have hsent : (tcpSocket t).2.sent = t.sent := by
    rcases tcpSocket_cases t with ⟨-, heq⟩ | ⟨-, -, -, hsent, -⟩
    · rw [heq, kmalloc_sent]
    · exact hsent
  unfold rxListen listenTx
  split
  · simp only
    split
    · exact Accounts.nil hsent Stack.Shut.tcpSocket
    · have hshut : t.Shut → ((tcpSocket t).2.modify (tcpSocket t).1 fun s =>
          s.accept ((tcpSocket t).2.heap sock) tcp).Shut := fun h => h.tcpSocket.modify fun _ => rfl
      exact accounts_tcpTx ((modify_sent ..).trans hsent) hshut _ _ _ _
  · exact Accounts.refl t

theorem accounts_rxSynSent (t : Stack) (sock : ℕ) (tcp : TcpHeader) :
    Accounts t (rxSynSent t sock tcp) (synSentTx t sock tcp) := by
  unfold rxSynSent synSentTx
  split
  · split
    · exact accounts_modify_tcpTx (fun _ => by rfl) _ _ _
    · exact Accounts.refl t
  · exact Accounts.refl t

theorem accounts_rxOnAck (t : Stack) (sock : ℕ) (tcp : TcpHeader) (state : TcpState) :
    Accounts t (rxOnAck t sock tcp state) [] := by
  unfold rxOnAck
  split
  · exact (Accounts.refl t).modify fun _ => rfl
  · exact Accounts.refl t

theorem setRx_window (s : Socket) (rxBuf : Block) (rxTail rcvNxt : UInt32) :
    (s.setRx rxBuf rxTail rcvNxt).window = s.window := rfl

theorem store_window (s : Socket) (payload : ℕ → UInt8) (len : UInt16) :
    (s.store payload len).window = s.window := by
  rw [Socket.store]
  exact setRx_window ..

/-- The data of a segment, and the acknowledgement of them. -/
theorem accounts_dataTx (t : Stack) (sock : ℕ) (tcp : TcpHeader) (payload : ℕ → UInt8)
    (len : UInt16) :
    Accounts t (afterTx t (dataTx t sock tcp payload len)) (dataTx t sock tcp payload len) ∧
      (if 0 < len then if tcp.seq = (t.heap sock).rcvNxt then
        tcpTx (t.modify sock fun s => s.store payload len) sock tcpAck noData 0 else t else t) =
          afterTx t (dataTx t sock tcp payload len) := by
  unfold dataTx
  split
  · split
    · exact ⟨accounts_modify_tcpTx (fun s => store_window s payload len) _ _ _, rfl⟩
    · exact ⟨Accounts.refl t, rfl⟩
  · exact ⟨Accounts.refl t, rfl⟩

/-- An established connection: the acknowledgement, the data and the end
of the stream one after the other. -/
theorem accounts_rxEstablished (t : Stack) (sock : ℕ) (tcp : TcpHeader) (payload : ℕ → UInt8)
    (len : UInt16) : Accounts t (rxEstablished t sock tcp payload len)
      (establishedTx t sock tcp payload len) := by
  have hack : Accounts t (if hasFlag tcp.flags tcpAck then
      t.modify sock fun s => { s with sndUna := tcp.ack } else t) [] := by
    split
    · exact (Accounts.refl t).modify fun _ => rfl
    · exact Accounts.refl t
  unfold rxEstablished establishedTx
  generalize (if hasFlag tcp.flags tcpAck then
    t.modify sock fun s => { s with sndUna := tcp.ack } else t) = t₁ at hack ⊢
  obtain ⟨hdata, heq⟩ := accounts_dataTx t₁ sock tcp payload len
  simp only [heq]
  generalize afterTx t₁ (dataTx t₁ sock tcp payload len) = t₂ at hdata ⊢
  refine (hack.trans hdata).trans ?_
  unfold finTx
  split
  · exact accounts_modify_tcpTx (fun _ => by rfl) _ _ _
  · exact Accounts.refl t₂

theorem accounts_tcpRx (t : Stack) (tcp : TcpHeader) (payload : ℕ → UInt8) (len : UInt16) :
    Accounts t (tcpRx t tcp payload len) (rxTx t tcp payload len) := by
  unfold tcpRx rxTx
  cases t.lookup tcp.dstPort tcp.srcPort with
  | none => exact Accounts.refl t
  | some sock =>
    simp only
    cases (t.heap sock).state with
    | listen => exact accounts_rxListen t sock tcp
    | synSent => exact accounts_rxSynSent t sock tcp
    | established => exact accounts_rxEstablished t sock tcp payload len
    | synRecv => exact accounts_rxOnAck t sock tcp _
    | closeWait => exact accounts_rxOnAck t sock tcp _
    | lastAck => exact accounts_rxOnAck t sock tcp _
    | _ => exact Accounts.refl t

/-! ## The calls that emit nothing -/

theorem accounts_tcpBind (t : Stack) (sock : ℕ) (addr : UInt32) (port : UInt16) :
    Accounts t (tcpBind t sock addr port).2 [] := by
  unfold tcpBind
  split
  · exact Accounts.refl t
  · dsimp only
    exact (Accounts.refl t).modify fun _ => rfl

theorem accounts_tcpListen (t : Stack) (sock : ℕ) : Accounts t (tcpListen t sock).2 [] := by
  unfold tcpListen
  split
  · exact Accounts.refl t
  · split
    · exact Accounts.refl t
    · dsimp only
      exact (Accounts.refl t).modify fun _ => rfl

theorem accounts_tcpRecv (t : Stack) (sock : ℕ) (len : UInt16) :
    Accounts t (tcpRecv t sock len).2 [] := by
  unfold tcpRecv
  split
  · exact Accounts.refl t
  · split
    · exact Accounts.refl t
    · split
      · exact Accounts.refl t
      · dsimp only
        exact (Accounts.refl t).modify fun _ => rfl

theorem accounts_tcpTimerTick (t : Stack) : Accounts t (tcpTimerTick t) [] := by
  have htick : ∀ s : Socket, s.tick.window = s.window := by
    intro s
    unfold Socket.tick
    split
    · split <;> rfl
    · rfl
  have hloop : ∀ (l : List ℕ) (t' : Stack), Accounts t t' [] →
      Accounts t (l.foldl (fun t sock => t.modify sock Socket.tick) t') [] := by
    intro l
    induction l with
    | nil => exact fun _ h => h
    | cons x l ih => exact fun t' h => ih _ (h.modify htick)
  exact hloop t.sockets t (Accounts.refl t)

/-! ## Runs -/

/-- **Every call is accounted for.** -/
theorem accounts_step (t : Stack) (c : Call) : Accounts t (t.step c) (t.txCalls c) := by
  have hgiven : ∀ {t' : Stack} {xs : List TxCall}, Accounts (t.given c.mem) t' xs →
      Accounts t t' xs := fun h => ⟨h.sent, h.shut⟩
  unfold Stack.step Stack.txCalls
  cases c.op with
  | socket =>
    refine hgiven (Accounts.nil ?_ Stack.Shut.tcpSocket)
    rcases tcpSocket_cases (t.given c.mem) with ⟨-, heq⟩ | ⟨-, -, -, hsent, -⟩
    · rw [heq, kmalloc_sent]
    · exact hsent
  | bind x addr port => exact hgiven (accounts_tcpBind _ x addr port)
  | listen x => exact hgiven (accounts_tcpListen _ x)
  | connect x addr port => exact hgiven (accounts_tcpConnect _ x addr port)
  | send x data len => exact hgiven (accounts_tcpSend _ x data len)
  | recv x len => exact hgiven (accounts_tcpRecv _ x len)
  | close x => exact hgiven (accounts_tcpClose _ x)
  | timerTick => exact hgiven (accounts_tcpTimerTick _)
  | cleanup =>
    exact hgiven (Accounts.nil rfl fun h x hx => h x (List.mem_of_mem_filter hx))
  | rx tcp payload len => exact hgiven (accounts_tcpRx _ tcp payload len)

/-- **The free space at the moment of sending**, as far as the field can
tell. -/
def TxCall.Advertises (x : TxCall) (p : Packet) : Prop :=
  p.tcp.window.toNat = min 65535 (x.stack.heap x.sock).space.toNat

/-- The buffer is full exactly if there is no space in it. -/
theorem space_eq_zero_iff (s : Socket) : s.space.toNat = 0 ↔ s.avail = 65536 := by
  have hlt := (s.rxTail - s.rxHead).toNat_lt
  unfold Socket.avail Socket.space
  rw [UInt32.toNat_sub, show tcpRxBufSize.toNat = 65536 from rfl]
  omega

/-- **When a segment advertises the free space.** In every run, the
segments that are sent are those of the calls of `tcp_tx`, and one that
is sent for a socket of the list has window 0; so it advertises the free
space exactly if the receive buffer is full. -/
theorem advertises_iff_full (heap : ℕ → Socket) (device : Option UInt32) (calls : List Call)
    (c : Call) :
    let t := runFrom Stack.step (tcpInit heap device) calls
    (t.step c).sent = t.sent ++ (t.txCalls c).flatMap TxCall.packets ∧
      ∀ x ∈ t.txCalls c, x.sock ∈ x.stack.sockets → ∀ p ∈ x.packets,
        p.tcp.window = 0 ∧
          (x.Advertises p ↔ (x.stack.heap x.sock).avail = 65536) := by
  intro t
  have hstart : (tcpInit heap device).Shut := fun x hx => absurd hx List.not_mem_nil
  have hshut : t.Shut := runFrom_invariant (P := Stack.Shut)
    (fun t c h => ((accounts_step t c).shut h).1) calls hstart
  refine ⟨(accounts_step t c).sent, fun x hx hin p hp => ?_⟩
  have hzero : p.tcp.window = 0 := by
    have hsock := ((accounts_step t c).shut hshut).2 x hx x.sock hin
    rcases tcpTx_packet x.stack x.sock x.flags x.data x.len with hnone | hone
    · rw [TxCall.packets, TxCall.run, sentSince_self hnone.symm] at hp
      exact absurd hp List.not_mem_nil
    · rw [TxCall.packets, TxCall.run, sentSince_append hone] at hp
      rw [List.mem_singleton.mp hp]
      exact hsock
  refine ⟨hzero, ?_⟩
  rw [TxCall.Advertises, hzero, ← space_eq_zero_iff, show (0 : UInt16).toNat = 0 from rfl]
  omega

/-- Two segments fill the buffer: the acknowledgement of the second one
advertises the room that is left. -/
theorem advertises_iff_full_filled :
    let block : ℕ → Block := fun addr => ⟨addr, noData⟩
    let segment (flags : UInt8) (seq ack : UInt32) : TcpHeader :=
      ⟨80, 49152, seq, ack, 5, flags, 0, 0, 0⟩
    let calls : List Call :=
      [⟨.socket, [block 0x1000, block 0x2000, block 0x3000]⟩,
        ⟨.connect 0x1000 0x0A000202 80, [block 0x4000]⟩,
        ⟨.rx (segment (tcpSyn ||| tcpAck) 6 0x12345679) noData 0, [block 0x5000]⟩,
        ⟨.rx (segment tcpAck 7 0x12345679) noData 65535, [block 0x6000]⟩]
    let t := runFrom Stack.step (tcpInit (fun _ => .zero) (some 0x0A00020F)) calls
    let last : Call := ⟨.rx (segment tcpAck 65542 0x12345679) noData 65535, [block 0x7000]⟩
    ((t.txCalls last).flatMap TxCall.packets).length = 1 ∧
      ∀ x ∈ t.txCalls last, ∀ p ∈ x.packets, x.Advertises p := by
  intro block segment calls t last
  have hfull : ∀ x ∈ t.txCalls last,
      x.sock ∈ x.stack.sockets ∧ (x.stack.heap x.sock).avail = 65536 := by decide +kernel
  refine ⟨by decide +kernel, fun x hx p hp => ?_⟩
  obtain ⟨hin, havail⟩ := hfull x hx
  exact ((advertises_iff_full _ _ calls last).2 x hx hin p hp).2.2 havail

/-- The SYN of a new socket, whose buffer is empty. -/
theorem syn_advertises_nothing :
    let block : ℕ → Block := fun addr => ⟨addr, noData⟩
    let t := runFrom Stack.step (tcpInit (fun _ => .zero) (some 0x0A00020F))
      [⟨.socket, [block 0x1000, block 0x2000, block 0x3000]⟩]
    ∃ x ∈ t.txCalls ⟨.connect 0x1000 0x0A000202 80, [block 0x4000]⟩, x.sock ∈ x.stack.sockets ∧
      (x.stack.heap x.sock).avail = 0 ∧ ∃ p ∈ x.packets, ¬ x.Advertises p := by
  intro block t
  refine ⟨_, List.mem_singleton.mpr rfl, by decide, by decide, _, List.mem_singleton.mpr rfl, ?_⟩
  unfold TxCall.Advertises
  decide

end Tcp

end Kos
