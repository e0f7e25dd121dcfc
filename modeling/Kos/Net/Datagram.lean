import Kos.Net.Send
/-!
# Net — echo replies and UDP

`icmp_echo_reply` and `udp_tx` copy a header and the data behind it into
a packet and pass that to `ip_send`. The length of the packet is kept in
16 bits, and neither checks that there is a packet to copy into. The
checksum of an echo reply is summed up over the finished packet by a
loop of its own; a UDP packet is sent without one.
-/

namespace Kos

namespace Net

/-! ## The loops of a checksum -/

/-- `for (i = 0; i < n; i++) sum += *p++`. -/
def addWords (mem : ℕ → UInt8) : ℕ → ℕ → UInt32 → UInt32
  | _, 0, sum => sum
  | p, n + 1, sum => addWords mem (p + 2) n (sum + (word16 (mem p) (mem (p + 1))).toUInt32)

/-- `while (sum >> 16) sum = (sum & 0xFFFF) + (sum >> 16)`. -/
def foldLoop (sum : UInt32) : UInt32 :=
  if sum >>> 16 = 0 then sum else foldLoop ((sum &&& (0xFFFF : UInt32)) + (sum >>> 16))
termination_by sum.toNat
decreasing_by
  rename_i h
  rw [shiftRight_eq_zero_iff] at h
  rw [toNat_carry]
  omega

/-! ## Packets -/

/-- `struct icmp_header`. The checksum is as the machine stores it, the
other fields are in host order. -/
structure IcmpHeader where
  type : UInt8
  code : UInt8
  checksum : UInt16
  id : UInt16
  sequence : UInt16
  deriving DecidableEq, Repr

/-- `struct udp_header`, likewise. -/
structure UdpHeader where
  srcPort : UInt16
  dstPort : UInt16
  length : UInt16
  checksum : UInt16
  deriving DecidableEq, Repr

/-- `sizeof(struct icmp_header)`. -/
abbrev icmpHeaderSize : UInt16 := 8

/-- `sizeof(struct udp_header)`. -/
abbrev udpHeaderSize : UInt16 := 8

/-- `ICMP_ECHOREPLY`. -/
abbrev icmpEchoReplyType : UInt8 := 0

/-- The header as it is stored. -/
def IcmpHeader.bytes (icmp : IcmpHeader) : List UInt8 :=
  [icmp.type, icmp.code] ++ le16 icmp.checksum ++ be16 icmp.id ++ be16 icmp.sequence

/-- The header as it is stored. -/
def UdpHeader.bytes (udp : UdpHeader) : List UInt8 :=
  be16 udp.srcPort ++ be16 udp.dstPort ++ be16 udp.length ++ le16 udp.checksum

/-- Copy a list to a position. -/
def writeList (mem : ℕ → UInt8) (pos : ℕ) (bytes : List UInt8) : ℕ → UInt8 :=
  Ring.copy mem pos (fun i => bytes.getD i 0) bytes.length

/-- A packet: the header, and the data if there are any. The rest is what
the memory held before. -/
def fillPacket (old : ℕ → UInt8) (header : List UInt8) (data : Tcp.Block) (len : UInt16) :
    ℕ → UInt8 :=
  let packet := writeList old 0 header
  if len ≠ 0 ∧ data.addr ≠ 0 then Ring.copy packet header.length data.bytes len.toNat else packet

/-- The header `icmp_echo_reply` starts with. -/
def echoHeader (id seq : UInt16) : IcmpHeader where
  type := icmpEchoReplyType
  code := 0
  checksum := 0
  id := id
  sequence := seq

/-- The checksum of `icmp_echo_reply`, over `total` bytes of the packet. -/
def echoChecksum (packet : ℕ → UInt8) (total : UInt16) : UInt16 :=
  let sum := addWords packet 0 (total / 2).toNat 0
  let sum := if total &&& 1 ≠ 0 then sum + (packet (2 * (total / 2).toNat)).toUInt32 else sum
  (~~~ foldLoop sum).toUInt16

/-- `kmalloc` of a size that can be 0: it answers `NULL` to that. -/
def Sender.kmallocOf (s : Sender) (size : UInt16) : ℕ × Sender :=
  if size = 0 then (0, s) else s.kmalloc

/-- `icmp_echo_reply`; `old` is what the memory of the packet held. -/
def icmpEchoReply (s : Sender) (dst : UInt32) (id seq : UInt16) (data : Tcp.Block) (len : UInt16)
    (old : ℕ → UInt8) : Sender :=
  let total := icmpHeaderSize + len
  let (_packet, s) := s.kmallocOf total
  let packet := fillPacket old (echoHeader id seq).bytes data len
  let packet := writeList packet 2 (le16 (echoChecksum packet total))
  ipSend s dst ipPIcmp packet total

/-- `udp_tx`; `old` is what the memory of the packet held. -/
def udpTx (s : Sender) (dst : UInt32) (dport sport : UInt16) (data : Tcp.Block) (len : UInt16)
    (old : ℕ → UInt8) : Sender :=
  let udp : UdpHeader :=
    { srcPort := sport, dstPort := dport, length := udpHeaderSize + len, checksum := 0 }
  let total := udpHeaderSize + len
  let (_packet, s) := s.kmallocOf total
  ipSend s dst ipPUdp (fillPacket old udp.bytes data len) total

end Net

end Kos
