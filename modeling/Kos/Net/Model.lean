import Kos.Tcp.Model
/-!
# Net — a frame on its way up

`network_rx`, `ip_rx` and the handlers they call, reading the frame from
memory. Positions count from the start of the frame, and memory goes on
past the bytes that were received: nothing in the model stops a read
there. What the code touches is recorded, the fields it reads and the
ranges it passes on, and so is whether a 16-bit length went below zero.
-/

namespace Kos

namespace Net

/-- `ETH_P_IP`. -/
abbrev ethPIp : UInt16 := 0x0800

/-- `ETH_P_ARP`. -/
abbrev ethPArp : UInt16 := 0x0806

/-- `IP_P_ICMP`. -/
abbrev ipPIcmp : UInt8 := 1

/-- `IP_P_TCP`. -/
abbrev ipPTcp : UInt8 := 6

/-- `IP_P_UDP`. -/
abbrev ipPUdp : UInt8 := 17

/-- `ICMP_ECHO`. -/
abbrev icmpEcho : UInt8 := 8

/-- A 16-bit field of a header, in host order. -/
def field16 (mem : ℕ → UInt8) (pos : ℕ) : UInt16 := word16 (mem (pos + 1)) (mem pos)

/-- A 32-bit field of a header, in host order. -/
def field32 (mem : ℕ → UInt8) (pos : ℕ) : UInt32 :=
  ((field16 mem pos).toUInt32 <<< 16) ||| (field16 mem (pos + 2)).toUInt32

/-- An answer to an echo request. -/
structure Echo where
  dst : UInt32
  id : UInt16
  seq : UInt16
  data : List UInt8
  deriving DecidableEq, Repr

/-- The memory of the frame, what was touched of it and whether a length
wrapped, and the state the handlers write to. -/
structure Host where
  mem : ℕ → UInt8
  touched : List (ℕ × ℕ)
  wrapped : Bool
  localIp : UInt32
  arpCache : List (UInt32 × List UInt8)
  tcp : Tcp.Stack
  echoes : List Echo

/-- A host to which a frame has been handed. -/
def Host.start (mem : ℕ → UInt8) (localIp : UInt32) (arpCache : List (UInt32 × List UInt8))
    (tcp : Tcp.Stack) : Host :=
  { mem := mem, touched := [], wrapped := false, localIp := localIp, arpCache := arpCache,
    tcp := tcp, echoes := [] }

/-- Touch `len` bytes at a position. -/
def Host.touch (h : Host) (pos len : ℕ) : Host := { h with touched := h.touched ++ [(pos, len)] }

/-- Subtract two 16-bit lengths. -/
def Host.sub16 (h : Host) (a b : UInt16) : UInt16 × Host :=
  (a - b, { h with wrapped := h.wrapped || a < b })

/-- `arp_add` to an address that is in the cache. -/
def arpReplace (ip : UInt32) (mac : List UInt8) :
    List (UInt32 × List UInt8) → Option (List (UInt32 × List UInt8))
  | [] => none
  | entry :: rest =>
    if entry.1 = ip then some ((ip, mac) :: rest)
    else (arpReplace ip mac rest).map (entry :: ·)

/-- `arp_add`. -/
def arpAdd (cache : List (UInt32 × List UInt8)) (ip : UInt32) (mac : List UInt8) :
    List (UInt32 × List UInt8) :=
  match arpReplace ip mac cache with
  | some cache => cache
  | none => if cache.length < 256 then cache ++ [(ip, mac)] else cache

/-- `arp_rx`. A request is read and not answered. -/
def arpRx (h : Host) (arp : ℕ) : Host :=
  let h := h.touch (arp + 6) 2
  if field16 h.mem (arp + 6) = 1 then h.touch (arp + 24) 4
  else
    let h := h.touch (arp + 6) 2
    if field16 h.mem (arp + 6) = 2 then
      let h := (h.touch (arp + 14) 4).touch (arp + 8) 6
      { h with
        arpCache := arpAdd h.arpCache (field32 h.mem (arp + 14)) (Ring.read h.mem (arp + 8) 6) }
    else h

/-- `icmp_rx`. The reply is recorded. -/
def icmpRx (h : Host) (ip icmp data : ℕ) (len : UInt16) : Host :=
  let h := h.touch icmp 1
  if h.mem icmp = icmpEcho then
    let h := ((h.touch (ip + 12) 4).touch (icmp + 4) 2).touch (icmp + 6) 2
    { h with
      echoes := h.echoes ++
        [⟨field32 h.mem (ip + 12), field16 h.mem (icmp + 4), field16 h.mem (icmp + 6),
          Ring.read h.mem data len.toNat⟩] }
  else h

/-- `tcp_rx`, reading its header from the frame. The other fields are not
read. -/
def tcpRx (h : Host) (tcp payload : ℕ) (len : UInt16) : Host :=
  let h := (h.touch (tcp + 2) 2).touch tcp 2
  match h.tcp.lookup (field16 h.mem (tcp + 2)) (field16 h.mem tcp) with
  | none => h
  | some _ =>
    let h := ((h.touch (tcp + 13) 1).touch (tcp + 4) 4).touch (tcp + 8) 4
    let header : Tcp.TcpHeader :=
      { srcPort := field16 h.mem tcp, dstPort := field16 h.mem (tcp + 2),
        seq := field32 h.mem (tcp + 4), ack := field32 h.mem (tcp + 8), dataOff := 0,
        flags := h.mem (tcp + 13), window := 0, checksum := 0, urgent := 0 }
    { h with tcp := Tcp.tcpRx h.tcp header (fun i => h.mem (payload + i)) len }

/-- `ip->check = 0`. -/
def clearCheck (mem : ℕ → UInt8) (ip : ℕ) : ℕ → UInt8 :=
  Function.update (Function.update mem (ip + 10) 0) (ip + 11) 0

/-- The header length `ip_rx` computes. -/
def ihl (mem : ℕ → UInt8) (ip : ℕ) : UInt8 := (mem ip &&& 0x0F) * 4

/-- The check of the header `ip_rx` makes, after it cleared the field. -/
def checksumOk (mem : ℕ → UInt8) (ip : ℕ) : Bool :=
  ipChecksum (Ring.read (clearCheck mem ip) ip 20) == word16 (mem (ip + 10)) (mem (ip + 11))

/-- Pass a payload to a handler: its header has `size` bytes. -/
def Host.passTo (h : Host) (handler : Host → ℕ → ℕ → UInt16 → Host) (payload : ℕ) (size : UInt16)
    (dataLen : UInt16) : Host :=
  let (len, h) := h.sub16 dataLen size
  let h := h.touch (payload + size.toNat) len.toNat
  handler h payload (payload + size.toNat) len

/-- The end of `ip_rx`: the payload goes to the handler of its protocol.
`udp_rx` reads nothing. -/
def ipDispatch (h : Host) (ip : ℕ) (ihl : UInt8) : Host :=
  let h := h.touch (ip + 2) 2
  let (dataLen, h) := h.sub16 (field16 h.mem (ip + 2)) ihl.toUInt16
  let payload := ip + ihl.toNat
  let h := h.touch (ip + 9) 1
  if h.mem (ip + 9) = ipPIcmp then
    h.passTo (fun h icmp data len => icmpRx h ip icmp data len) payload 8 dataLen
  else if h.mem (ip + 9) = ipPTcp then h.passTo tcpRx payload 20 dataLen
  else if h.mem (ip + 9) = ipPUdp then h.passTo (fun h _ _ _ => h) payload 8 dataLen
  else h

/-- `ip_rx`. -/
def ipRx (h : Host) (ip : ℕ) : Host :=
  let ok := checksumOk h.mem ip
  let h := ((h.touch (ip + 10) 2).touch (ip + 10) 2).touch ip 20
  let h := { h with mem := clearCheck h.mem ip }
  if !ok then h
  else
    let h := h.touch ip 1
    let ihl := ihl h.mem ip
    if ihl < 20 then h
    else
      let h := h.touch (ip + 16) 4
      let dst := field32 h.mem (ip + 16)
      if dst ≠ h.localIp ∧ dst ≠ 0xFFFFFFFF then h
      else ipDispatch h ip ihl

/-- `network_rx`. -/
def networkRx (h : Host) (len : UInt16) : Host :=
  if len < 14 then h
  else
    let h := h.touch 12 2
    if field16 h.mem 12 = ethPIp then ipRx h 14
    else if field16 h.mem 12 = ethPArp then arpRx h 14
    else h

end Net

end Kos
