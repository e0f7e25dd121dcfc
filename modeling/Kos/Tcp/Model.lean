import Kos.Net.Wire
import Mathlib.Logic.Function.Basic
/-!
# Tcp — sockets and segments, as `tcp.c` handles them

Sockets live at addresses and the list of them is kept newest first, as
`tcp_socket` links them. A call takes the answers of the allocator from
a list; address `0` is `NULL`, and so is an exhausted list. What
`tcp_tx` hands to `ip_send` is recorded, oldest first. Header fields are
in host order: every one is converted when it is read and when it is
written. The fields of a socket that no function of the file reads
(congestion control, retransmission) are left out, but for the counters
of the transmit buffer, and so is the freeing of a packet that was sent.

A receive buffer that `kmalloc` had no memory for is a block of its own
here, at address `0`. Where `20 + len` does not fit 16 bits, `tcp_tx`
writes behind the packet it asked for; the writes are in
`Kos.Net.tcpTxEffects`, and here such a packet is recorded whole.
-/

namespace Kos

namespace Tcp

/-- The state of a socket. -/
inductive TcpState
  | closed
  | listen
  | synSent
  | synRecv
  | established
  | finWait1
  | finWait2
  | closeWait
  | closing
  | lastAck
  | timeWait
  deriving DecidableEq, Repr

/-- `TCP_FIN`. -/
abbrev tcpFin : UInt8 := 0x01

/-- `TCP_SYN`. -/
abbrev tcpSyn : UInt8 := 0x02

/-- `TCP_PSH`. -/
abbrev tcpPsh : UInt8 := 0x08

/-- `TCP_ACK`. -/
abbrev tcpAck : UInt8 := 0x10

/-- `flags & bit`. -/
def hasFlag (flags bit : UInt8) : Bool := flags &&& bit != 0

/-- `TCP_RX_BUF_SIZE`. -/
abbrev tcpRxBufSize : UInt32 := 65536

/-- A pointer and the memory behind it. -/
structure Block where
  addr : ℕ
  bytes : ℕ → UInt8

/-- `NULL`. -/
def Block.null : Block := ⟨0, fun _ => 0⟩

/-- `struct socket`. -/
structure Socket where
  localAddr : UInt32
  localPort : UInt16
  remoteAddr : UInt32
  remotePort : UInt16
  state : TcpState
  sndUna : UInt32
  sndNxt : UInt32
  rcvNxt : UInt32
  window : UInt16
  rxBuf : Block
  txBuf : Block
  rxHead : UInt32
  rxTail : UInt32
  txHead : UInt32
  txTail : UInt32
  timeWaitTimer : UInt8

/-- What `kzalloc` returns. -/
def Socket.zero : Socket :=
  ⟨0, 0, 0, 0, .closed, 0, 0, 0, 0, .null, .null, 0, 0, 0, 0, 0⟩

/-- `struct tcp_header`, in host order. -/
structure TcpHeader where
  srcPort : UInt16
  dstPort : UInt16
  seq : UInt32
  ack : UInt32
  dataOff : UInt8
  flags : UInt8
  window : UInt16
  checksum : UInt16
  urgent : UInt16
  deriving DecidableEq, Repr

/-- `sizeof(struct tcp_header)`. -/
abbrev tcpHeaderSize : UInt16 := 20

/-- The header as it is stored. -/
def TcpHeader.bytes (tcp : TcpHeader) : List UInt8 :=
  Net.be16 tcp.srcPort ++ Net.be16 tcp.dstPort ++ Net.be32 tcp.seq ++ Net.be32 tcp.ack ++
    [tcp.dataOff, tcp.flags] ++ Net.be16 tcp.window ++ Net.le16 tcp.checksum ++
    Net.le16 tcp.urgent

/-- `tcp_checksum`. The words of the pseudo header are read from its bytes,
as the C text says; a compiler that assumes strict aliasing may differ. -/
def tcpChecksum (src dst : UInt32) (tcp : TcpHeader) (data : ℕ → UInt8) (len : UInt16) : UInt16 :=
  let pseudo := Net.be32 src ++ Net.be32 dst ++ [0, 6] ++ Net.be16 (tcpHeaderSize + len)
  let sum := Net.sumWords 0 pseudo
  let sum := Net.sumWords sum tcp.bytes
  let sum := Net.sumWords sum (Ring.read data 0 len.toNat)
  (~~~ Net.foldSum sum).toUInt16

/-- What is handed to `ip_send`: the destination, the header and data
copied into the packet, and the length passed along. -/
structure Packet where
  dst : UInt32
  tcp : TcpHeader
  data : List UInt8
  total : UInt16
  deriving DecidableEq, Repr

/-- The state of the file, the address of the network device if there is
one, the answers of the allocator and the packets sent. -/
structure Stack where
  heap : ℕ → Socket
  sockets : List ℕ
  nextPort : UInt16
  tcpSeqNum : UInt32
  device : Option UInt32
  mem : List Block
  sent : List Packet

/-- `kmalloc`. -/
def kmalloc (t : Stack) : Block × Stack :=
  match t.mem with
  | [] => (.null, t)
  | block :: rest => (block, { t with mem := rest })

/-- Write to the socket at an address. -/
def Stack.modify (t : Stack) (sock : ℕ) (f : Socket → Socket) : Stack :=
  { t with heap := Function.update t.heap sock (f (t.heap sock)) }

/-- `tcp_init`. -/
def tcpInit (heap : ℕ → Socket) (device : Option UInt32) : Stack :=
  { heap := heap, sockets := [], nextPort := 49152, tcpSeqNum := 0x12345678, device := device,
    mem := [], sent := [] }

/-- `tcp_socket`; `0` is `NULL`. The buffers are not checked. -/
def tcpSocket (t : Stack) : ℕ × Stack :=
  let (sock, t) := kmalloc t
  if sock.addr = 0 then (0, t)
  else
    let (rxBuf, t) := kmalloc t
    let (txBuf, t) := kmalloc t
    let s := { Socket.zero with
      state := .closed, window := tcpRxBufSize.toUInt16, rxBuf := rxBuf, txBuf := txBuf }
    (sock.addr, { t with
      heap := Function.update t.heap sock.addr s, sockets := sock.addr :: t.sockets })

/-- `tcp_bind`. -/
def tcpBind (t : Stack) (sock : ℕ) (addr : UInt32) (port : UInt16) : Bool × Stack :=
  if sock = 0 ∨ (t.heap sock).state ≠ .closed then (false, t)
  else (true, t.modify sock fun s => { s with localAddr := addr, localPort := port })

/-- `tcp_listen`. -/
def tcpListen (t : Stack) (sock : ℕ) : Bool × Stack :=
  if sock = 0 ∨ (t.heap sock).state ≠ .closed then (false, t)
  else if (t.heap sock).localPort = 0 then (false, t)
  else (true, t.modify sock fun s => { s with state := .listen })

/-- What `tcp_tx` adds to `snd_nxt`, in the order of the source. -/
def advance (flags : UInt8) (len : UInt16) (sndNxt : UInt32) : UInt32 :=
  let sndNxt := if hasFlag flags tcpSyn && !hasFlag flags tcpAck then sndNxt + 1 else sndNxt
  let sndNxt := if hasFlag flags tcpFin then sndNxt + 1 else sndNxt
  if len ≠ 0 then sndNxt + len.toUInt32 else sndNxt

/-- The header `tcp_tx` builds for a socket. -/
def txHeader (s : Socket) (flags : UInt8) (data : ℕ → UInt8) (len : UInt16) : TcpHeader :=
  let tcp : TcpHeader :=
    { srcPort := s.localPort, dstPort := s.remotePort, seq := s.sndNxt, ack := s.rcvNxt,
      dataOff := (tcpHeaderSize / 4).toUInt8, flags := flags, window := s.window, checksum := 0,
      urgent := 0 }
  { tcp with checksum := tcpChecksum s.localAddr s.remoteAddr tcp data len }

/-- `tcp_tx`. Without a packet nothing is sent and `snd_nxt` stays. -/
def tcpTx (t : Stack) (sock : ℕ) (flags : UInt8) (data : ℕ → UInt8) (len : UInt16) : Stack :=
  if sock = 0 then t
  else
    let tcp := txHeader (t.heap sock) flags data len
    let total := tcpHeaderSize + len
    let (packet, t) := kmalloc t
    if packet.addr = 0 then t
    else
      let t : Stack := { t with
        sent := t.sent ++
          [⟨(t.heap sock).remoteAddr, tcp, Ring.read data 0 len.toNat, total⟩] }
      t.modify sock fun s => { s with sndNxt := advance flags len s.sndNxt }

/-- No data. -/
def noData : ℕ → UInt8 := fun _ => 0

/-- `tcp_connect`. -/
def tcpConnect (t : Stack) (sock : ℕ) (addr : UInt32) (port : UInt16) : Bool × Stack :=
  if sock = 0 ∨ (t.heap sock).state ≠ .closed then (false, t)
  else
    let t := t.modify sock fun s => { s with remoteAddr := addr, remotePort := port }
    let t :=
      if (t.heap sock).localPort = 0 then
        { t.modify sock fun s => { s with localPort := t.nextPort } with
          nextPort := t.nextPort + 1 }
      else t
    let t :=
      if (t.heap sock).localAddr = 0 then
        match t.device with
        | some ip => t.modify sock fun s => { s with localAddr := ip }
        | none => t
      else t
    let t := t.modify sock fun s =>
      { s with state := .synSent, sndUna := t.tcpSeqNum, sndNxt := t.tcpSeqNum + 1 }
    (true, tcpTx t sock tcpSyn noData 0)

/-- A socket that takes segments from `sport` to `dport`. -/
def Socket.accepts (s : Socket) (dport sport : UInt16) : Bool :=
  (s.localPort == dport && s.remotePort == sport) || (s.state == .listen && s.localPort == dport)

/-- The search of `tcp_rx`: the first socket of the list that accepts. -/
def Stack.lookup (t : Stack) (dport sport : UInt16) : Option ℕ :=
  t.sockets.find? fun sock => (t.heap sock).accepts dport sport

/-- The free space of the receive buffer. -/
def Socket.space (s : Socket) : UInt32 := tcpRxBufSize - (s.rxTail - s.rxHead)

/-- `if (len > limit) len = limit`. -/
def clamp (len : UInt16) (limit : UInt32) : UInt16 :=
  if limit < len.toUInt32 then limit.toUInt16 else len

/-- Write the fields that storing data changes. -/
def Socket.setRx (s : Socket) (rxBuf : Block) (rxTail rcvNxt : UInt32) : Socket :=
  { s with rxBuf := rxBuf, rxTail := rxTail, rcvNxt := rcvNxt }

/-- The storing of in-order data, cut to the free space. -/
def Socket.store (s : Socket) (payload : ℕ → UInt8) (len : UInt16) : Socket :=
  let len := clamp len s.space
  let tail := s.rxTail % tcpRxBufSize
  let bytes :=
    if tcpRxBufSize < tail + len.toUInt32 then
      let first := tcpRxBufSize - tail
      Ring.copy (Ring.copy s.rxBuf.bytes tail.toNat payload first.toNat) 0
        (fun i => payload (first.toNat + i)) (len.toUInt32 - first).toNat
    else Ring.copy s.rxBuf.bytes tail.toNat payload len.toNat
  s.setRx { s.rxBuf with bytes := bytes } (s.rxTail + len.toUInt32) (s.rcvNxt + len.toUInt32)

/-- What a listening socket writes to a new one. The remote address is
not set. -/
def Socket.accept (s listener : Socket) (tcp : TcpHeader) : Socket :=
  { s with
    state := .synRecv, localAddr := listener.localAddr, localPort := listener.localPort,
    remotePort := tcp.srcPort, rcvNxt := tcp.seq + 1, sndUna := listener.sndNxt,
    sndNxt := listener.sndNxt }

/-- The branch of `tcp_rx` for a listening socket. -/
def rxListen (t : Stack) (sock : ℕ) (tcp : TcpHeader) : Stack :=
  if hasFlag tcp.flags tcpSyn then
    let (newSock, t) := tcpSocket t
    if newSock = 0 then t
    else
      let t := t.modify newSock fun s => s.accept (t.heap sock) tcp
      tcpTx t newSock (tcpSyn ||| tcpAck) noData 0
  else t

/-- The branch of `tcp_rx` for a socket that has sent its SYN. -/
def rxSynSent (t : Stack) (sock : ℕ) (tcp : TcpHeader) : Stack :=
  if hasFlag tcp.flags tcpSyn && hasFlag tcp.flags tcpAck then
    if tcp.ack = (t.heap sock).sndUna + 1 then
      let t := t.modify sock fun s =>
        { s with state := .established, rcvNxt := tcp.seq + 1, sndUna := tcp.ack }
      tcpTx t sock tcpAck noData 0
    else t
  else t

/-- The branch of `tcp_rx` for an established connection. -/
def rxEstablished (t : Stack) (sock : ℕ) (tcp : TcpHeader) (payload : ℕ → UInt8) (len : UInt16) :
    Stack :=
  let t :=
    if hasFlag tcp.flags tcpAck then t.modify sock fun s => { s with sndUna := tcp.ack } else t
  let t :=
    if 0 < len then
      if tcp.seq = (t.heap sock).rcvNxt then
        tcpTx (t.modify sock fun s => s.store payload len) sock tcpAck noData 0
      else t
    else t
  if hasFlag tcp.flags tcpFin then
    let t := t.modify sock fun s => { s with state := .closeWait, rcvNxt := s.rcvNxt + 1 }
    tcpTx t sock tcpAck noData 0
  else t

/-- Move to a state on an acknowledgement. -/
def rxOnAck (t : Stack) (sock : ℕ) (tcp : TcpHeader) (state : TcpState) : Stack :=
  if hasFlag tcp.flags tcpAck then t.modify sock fun s => { s with state := state } else t

/-- `tcp_rx`. -/
def tcpRx (t : Stack) (tcp : TcpHeader) (payload : ℕ → UInt8) (len : UInt16) : Stack :=
  match t.lookup tcp.dstPort tcp.srcPort with
  | none => t
  | some sock =>
    match (t.heap sock).state with
    | .listen => rxListen t sock tcp
    | .synSent => rxSynSent t sock tcp
    | .synRecv => rxOnAck t sock tcp .established
    | .established => rxEstablished t sock tcp payload len
    | .closeWait => rxOnAck t sock tcp .closed
    | .lastAck => rxOnAck t sock tcp .closed
    | _ => t

/-- `tcp_send`; `none` is `-1`. -/
def tcpSend (t : Stack) (sock : ℕ) (data : Block) (len : UInt16) : Option UInt16 × Stack :=
  if sock = 0 ∨ (t.heap sock).state ≠ .established then (none, t)
  else if data.addr = 0 ∨ len = 0 then (some 0, t)
  else (some len, tcpTx t sock (tcpAck ||| tcpPsh) data.bytes len)

/-- The bytes `tcp_recv` copies out, and their count. -/
def Socket.fetch (s : Socket) (len : UInt16) : List UInt8 × UInt16 :=
  let len := clamp len (s.rxTail - s.rxHead)
  let head := s.rxHead % tcpRxBufSize
  let bytes :=
    if tcpRxBufSize < head + len.toUInt32 then
      let first := tcpRxBufSize - head
      Ring.read s.rxBuf.bytes head.toNat first.toNat ++
        Ring.read s.rxBuf.bytes 0 (len.toUInt32 - first).toNat
    else Ring.read s.rxBuf.bytes head.toNat len.toNat
  (bytes, len)

/-- `tcp_recv`: the bytes returned; `none` is `-1`. -/
def tcpRecv (t : Stack) (sock : ℕ) (len : UInt16) : Option (List UInt8) × Stack :=
  if sock = 0 then (none, t)
  else if (t.heap sock).state ≠ .established ∧ (t.heap sock).state ≠ .closeWait then (none, t)
  else if (t.heap sock).rxTail - (t.heap sock).rxHead = 0 then (some [], t)
  else
    let (bytes, len) := (t.heap sock).fetch len
    (some bytes, t.modify sock fun s => { s with rxHead := s.rxHead + len.toUInt32 })

/-- `tcp_close`. -/
def tcpClose (t : Stack) (sock : ℕ) : Stack :=
  if sock = 0 then t
  else
    match (t.heap sock).state with
    | .established =>
      tcpTx (t.modify sock fun s => { s with state := .finWait1 }) sock (tcpFin ||| tcpAck) noData 0
    | .closeWait =>
      tcpTx (t.modify sock fun s => { s with state := .lastAck }) sock (tcpFin ||| tcpAck) noData 0
    | .synSent => t.modify sock fun s => { s with state := .closed }
    | .synRecv => t.modify sock fun s => { s with state := .closed }
    | .closed => t.modify sock fun s => { s with state := .closed }
    | _ => t

/-- One socket of the loop of `tcp_timer_tick`. -/
def Socket.tick (s : Socket) : Socket :=
  if s.state = .timeWait then
    if 0 < s.timeWaitTimer then { s with timeWaitTimer := s.timeWaitTimer - 1 }
    else { s with state := .closed }
  else s

/-- `tcp_timer_tick`. -/
def tcpTimerTick (t : Stack) : Stack :=
  t.sockets.foldl (fun t sock => t.modify sock Socket.tick) t

/-- `tcp_cleanup`: the closed sockets leave the list. -/
def tcpCleanup (t : Stack) : Stack :=
  { t with sockets := t.sockets.filter fun sock => (t.heap sock).state != .closed }

/-- The calls of the file. -/
inductive Op
  | socket
  | bind (sock : ℕ) (addr : UInt32) (port : UInt16)
  | listen (sock : ℕ)
  | connect (sock : ℕ) (addr : UInt32) (port : UInt16)
  | send (sock : ℕ) (data : Block) (len : UInt16)
  | recv (sock : ℕ) (len : UInt16)
  | close (sock : ℕ)
  | timerTick
  | cleanup
  | rx (tcp : TcpHeader) (payload : ℕ → UInt8) (len : UInt16)

/-- A call, with the answers of the allocator to it. -/
structure Call where
  op : Op
  mem : List Block

/-- The state before a call: the answers are there to be taken. -/
def Stack.given (t : Stack) (mem : List Block) : Stack := { t with mem := mem }

/-- One call. -/
def Stack.step (t : Stack) (c : Call) : Stack :=
  match c.op with
  | .socket => (tcpSocket (t.given c.mem)).2
  | .bind sock addr port => (tcpBind (t.given c.mem) sock addr port).2
  | .listen sock => (tcpListen (t.given c.mem) sock).2
  | .connect sock addr port => (tcpConnect (t.given c.mem) sock addr port).2
  | .send sock data len => (tcpSend (t.given c.mem) sock data len).2
  | .recv sock len => (tcpRecv (t.given c.mem) sock len).2
  | .close sock => tcpClose (t.given c.mem) sock
  | .timerTick => tcpTimerTick (t.given c.mem)
  | .cleanup => tcpCleanup (t.given c.mem)
  | .rx tcp payload len => tcpRx (t.given c.mem) tcp payload len

end Tcp

end Kos
