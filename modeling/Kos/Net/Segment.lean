import Kos.Net.Checksum
import Kos.Net.RoundTrip
import Kos.Tcp.Address
/-!
# Net — the checksum of a segment on the wire

`tcp_tx` sums a pseudo header with the addresses of the socket, and
`ip_send` writes the header that carries the segment with an address of
its own. A receiver sums what it finds in that header. The two agree
exactly if the local address of the socket and that of `ip.c` leave the
same residue modulo `2 ^ 16 - 1`; nothing makes them agree.
-/

namespace Kos

namespace Net

/-- The bytes that `tcp_tx` copies into a packet. -/
def packetBytes (pkt : Tcp.Packet) : List UInt8 := pkt.tcp.bytes ++ pkt.data

/-- The `ip_send` of `tcp_tx`. -/
def sendPacket (s : Sender) (pkt : Tcp.Packet) : Sender :=
  ipSend s pkt.dst ipPTcp (fun i => (packetBytes pkt).getD i 0) pkt.total

/-- The folded sum of the segment in a frame and of the pseudo header made
of the addresses and the length in the IP header that carries it. -/
def segmentSum (frame : List UInt8) : UInt32 :=
  let mem := fun i => frame.getD i 0
  let len := field16 mem 16 - ipHeaderSize
  foldSum (sumWords 0
    (Ring.read mem 26 8 ++ [0, ipPTcp] ++ be16 len ++ Ring.read mem 34 len.toNat))

/-- **The checksum of a segment verifies.** -/
def Verifies (frame : List UInt8) : Prop := segmentSum frame = 0xFFFF

instance (frame : List UInt8) : Decidable (Verifies frame) :=
  inferInstanceAs (Decidable (segmentSum frame = 0xFFFF))

variable {s : Sender} {dst : UInt32} {total : UInt16} {eth packet : List UInt8}

/-- What a receiver sums up. -/
theorem segmentSum_eq (heth : eth.length = 12) (hpacket : packet.length = total.toNat) :
    segmentSum (eth ++ be16 ethPIp ++ (s.ipHeader dst ipPTcp (ipHeaderSize + total)).bytes ++
      packet) = foldSum (sumWords 0
        (be32 s.localIp ++ be32 dst ++ [0, ipPTcp] ++ be16 total ++ packet)) := by
  set header := s.ipHeader dst ipPTcp (ipHeaderSize + total) with hheader
  set frame := eth ++ be16 ethPIp ++ header.bytes ++ packet with hframe
  obtain ⟨-, hip, hsegment⟩ := read_frame heth (Ring.read_getD frame 0)
  obtain ⟨-, htot, -⟩ := IpHeader.fields hip
  have hlen : field16 (fun i => frame.getD i 0) 16 - ipHeaderSize = total := by
    rw [htot]
    exact add_sub_cancel_left ipHeaderSize total
  have haddrs := IpHeader.read_addresses hip
  rw [hpacket] at hsegment
  simp only [segmentSum, hlen]
  rw [hsegment, haddrs]
  rfl

/-! ## The sums -/

theorem wordSum_le16 (c : UInt16) : wordSum (le16 c) = c.toNat := by
  rw [le16, wordSum, wordSum, word16_split, Nat.add_zero]

/-- A checksum adds itself to the sum of its header. -/
theorem wordSum_tcpHeader (tcp : Tcp.TcpHeader) (c : UInt16) :
    wordSum { tcp with checksum := c }.bytes =
      wordSum { tcp with checksum := 0 }.bytes + c.toNat := by
  let front := be16 tcp.srcPort ++ be16 tcp.dstPort ++ be32 tcp.seq ++ be32 tcp.ack ++
    [tcp.dataOff, tcp.flags] ++ be16 tcp.window
  have hfront : Even front.length := (by decide : Even 16)
  have hsum : ∀ c, wordSum { tcp with checksum := c }.bytes =
      wordSum front + (c.toNat + wordSum (le16 tcp.urgent)) := by
    intro c
    have hbytes : { tcp with checksum := c }.bytes = front ++ (le16 c ++ le16 tcp.urgent) := rfl
    have hle16 : Even (le16 c).length := (by decide : Even 2)
    rw [hbytes, wordSum_append _ hfront, wordSum_append _ hle16, wordSum_le16]
  rw [hsum c, hsum 0, show (0 : UInt16).toNat = 0 from rfl]
  omega

/-- The pseudo header of a segment. -/
def pseudoHeader (src dst : UInt32) (total : UInt16) : List UInt8 :=
  be32 src ++ be32 dst ++ [0, ipPTcp] ++ be16 total

theorem wordSum_pseudoHeader (src dst : UInt32) (total : UInt16) :
    wordSum (pseudoHeader src dst total) =
      wordSum (be32 src) + wordSum (be32 dst ++ [0, ipPTcp] ++ be16 total) := by
  have hsrc : Even (be32 src).length := (by decide : Even 4)
  have hassoc : pseudoHeader src dst total =
      be32 src ++ (be32 dst ++ [0, ipPTcp] ++ be16 total) := rfl
  rw [hassoc, wordSum_append _ hsrc]

/-- The bytes a checksum is about. -/
def summed (src dst : UInt32) (tcp : Tcp.TcpHeader) (data : ℕ → UInt8) (len : UInt16) :
    List UInt8 :=
  pseudoHeader src dst (Tcp.tcpHeaderSize + len) ++ (tcp.bytes ++ Ring.read data 0 len.toNat)

variable {src src' : UInt32} {tcp : Tcp.TcpHeader} {data : ℕ → UInt8} {len : UInt16}

/-- **`tcp_checksum` sums pseudo header, header and data in one go.** -/
theorem tcpChecksum_eq : Tcp.tcpChecksum src dst tcp data len =
    (~~~ foldSum (sumWords 0 (summed src dst tcp data len))).toUInt16 := by
  have hpseudo : Even (pseudoHeader src dst (Tcp.tcpHeaderSize + len)).length :=
    (by decide : Even 12)
  have hheader : Even tcp.bytes.length := (by decide : Even 20)
  rw [summed, sumWords_append _ hpseudo, sumWords_append _ hheader]
  rfl

/-- The sum, part by part. It does not overflow. -/
theorem toNat_sumWords_summed :
    (sumWords 0 (summed src dst tcp data len)).toNat = wordSum (be32 src) +
      wordSum (be32 dst ++ [0, ipPTcp] ++ be16 (Tcp.tcpHeaderSize + len)) + wordSum tcp.bytes +
      wordSum (Ring.read data 0 len.toNat) := by
  have hpseudo : Even (pseudoHeader src dst (Tcp.tcpHeaderSize + len)).length :=
    (by decide : Even 12)
  have hheader : Even tcp.bytes.length := (by decide : Even 20)
  have hlength : (summed src dst tcp data len).length = 32 + len.toNat := by
    rw [summed, List.length_append, List.length_append, Ring.length_read]
    change 12 + (20 + len.toNat) = _
    omega
  have hlen := len.toNat_lt
  have hle := wordSum_le (summed src dst tcp data len)
  rw [hlength] at hle
  have hsmall : (0 : UInt32).toNat + wordSum (summed src dst tcp data len) < 2 ^ 32 := by
    rw [show (0 : UInt32).toNat = 0 from rfl]
    omega
  rw [toNat_sumWords hsmall, show (0 : UInt32).toNat = 0 from rfl, Nat.zero_add, summed,
    wordSum_append _ hpseudo, wordSum_append _ hheader, wordSum_pseudoHeader]
  omega

/-- **When the checksum of a segment verifies** against a source address:
it must agree with the address the checksum was made with. -/
theorem foldSum_summed_eq_ones_iff (src src' dst : UInt32) (tcp : Tcp.TcpHeader)
    (data : ℕ → UInt8) (len : UInt16) :
    foldSum (sumWords 0 (summed src' dst
        { tcp with checksum := Tcp.tcpChecksum src dst { tcp with checksum := 0 } data len }
        data len)) = 0xFFFF ↔
      src.toNat % 65535 = src'.toNat % 65535 := by
  set made := sumWords 0 (summed src dst { tcp with checksum := 0 } data len) with hmade
  have hmadeSum : made.toNat = _ := toNat_sumWords_summed
  have hfoundSum := @toNat_sumWords_summed dst src'
    { tcp with checksum := Tcp.tcpChecksum src dst { tcp with checksum := 0 } data len } data len
  rw [wordSum_tcpHeader, tcpChecksum_eq, ← hmade] at hfoundSum
  have hrest : 0 < wordSum (be32 dst ++ [0, ipPTcp] ++ be16 (Tcp.tcpHeaderSize + len)) := by
    change 0 < _ + (_ + (1536 + _))
    omega
  -- the sum found without the checksum in it
  have hfound : _ = (wordSum (be32 src') +
      wordSum (be32 dst ++ [0, ipPTcp] ++ be16 (Tcp.tcpHeaderSize + len)) +
      wordSum { tcp with checksum := 0 }.bytes + wordSum (Ring.read data 0 len.toNat)) +
      (~~~ foldSum made).toUInt16.toNat := hfoundSum.trans (by omega)
  have haddr := wordSum_be32_mod_eq_iff src src'
  rw [tcpChecksum_eq, verifies_iff hfound (by omega), hmadeSum, ← haddr]
  omega

/-! ## The frame -/

/-- **The frame of a segment.** What `ip_send` makes of the packet that
`tcp_tx` hands it verifies exactly if the addresses agree. -/
theorem verifies_sendPacket {sock : Tcp.Socket} {flags : UInt8} {frame : List UInt8} {n : UInt16}
    (hlen : len.toNat ≤ 65481)
    (hframe : (sendPacket s ⟨sock.remoteAddr, Tcp.txHeader sock flags data len,
      Ring.read data 0 len.toNat, Tcp.tcpHeaderSize + len⟩).frames = s.frames ++ [(frame, n)]) :
    Verifies frame ↔ sock.localAddr.toNat % 65535 = s.localIp.toNat % 65535 := by
  set pkt : Tcp.Packet := ⟨sock.remoteAddr, Tcp.txHeader sock flags data len,
    Ring.read data 0 len.toNat, Tcp.tcpHeaderSize + len⟩ with hpkt
  have htotal : (Tcp.tcpHeaderSize + len).toNat = 20 + len.toNat := by
    rw [UInt16.toNat_add]
    change (20 + len.toNat) % 2 ^ 16 = _
    omega
  have hlength : (packetBytes pkt).length = (Tcp.tcpHeaderSize + len).toNat := by
    rw [packetBytes, List.length_append, Ring.length_read, htotal]
    rfl
  have hne : (sendPacket s pkt).frames ≠ s.frames := by
    rw [hframe]
    simp
  have hready : s.Ready pkt.dst := ready_of_frames_ne hne
  obtain ⟨eth, heth, hsent⟩ := @frames_ipSend s pkt.dst ipPTcp
    (fun i => (packetBytes pkt).getD i 0) pkt.total hready (by rw [hpkt, htotal]; omega)
  have hread : Ring.read (fun i => (packetBytes pkt).getD i 0) 0 pkt.total.toNat =
      packetBytes pkt := by
    rw [← hlength]
    exact Ring.read_getD (packetBytes pkt) 0
  rw [hread, ← sendPacket, hframe] at hsent
  have hpair := List.singleton_inj.mp (List.append_cancel_left hsent)
  rw [(Prod.mk.inj hpair).1, Verifies, segmentSum_eq heth hlength]
  exact foldSum_summed_eq_ones_iff sock.localAddr s.localIp sock.remoteAddr
    (Tcp.txHeader sock flags data len) data len

/-! ## Runs -/

/-- **Addresses with the same sum.** -/
def Agree (localIp addr : UInt32) : Prop := addr.toNat % 65535 = localIp.toNat % 65535

instance (localIp addr : UInt32) : Decidable (Agree localIp addr) :=
  inferInstanceAs (Decidable (_ = _))

/-- **When the checksum of a segment verifies.** After any run, the frame
of a segment verifies exactly if the local address of its socket agrees
with that of `ip.c`. So it does for every socket that has been given an
address, if the device has one that agrees and only such are bound. -/
theorem verifies_iff_agree (heap : ℕ → Tcp.Socket) (device : Option UInt32)
    (calls : List Tcp.Call) (mem : List Tcp.Block) :
    let t := (runFrom Tcp.Stack.step (Tcp.tcpInit heap device) calls).given mem
    ∀ (sock : ℕ) (flags : UInt8) (data : ℕ → UInt8) (len : UInt16) (pkt : Tcp.Packet) (s : Sender)
      (frame : List UInt8) (n : UInt16), len.toNat ≤ 65481 →
      (Tcp.tcpTx t sock flags data len).sent = t.sent ++ [pkt] →
      (sendPacket s pkt).frames = s.frames ++ [(frame, n)] →
      (Verifies frame ↔ Agree s.localIp (t.heap sock).localAddr) ∧
        ((∃ ip, device = some ip ∧ Agree s.localIp ip) →
          (∀ c ∈ calls, c.op.BindsOk (Agree s.localIp)) → sock ∈ t.sockets →
          ((t.heap sock).localAddr = 0 ∧ (t.heap sock).localPort = 0) ∨ Verifies frame) := by
  intro t sock flags data len pkt s frame n hlen hsent hframe
  have hpkt : pkt = ⟨(t.heap sock).remoteAddr, Tcp.txHeader (t.heap sock) flags data len,
      Ring.read data 0 len.toNat, Tcp.tcpHeaderSize + len⟩ := by
    rcases Tcp.tcpTx_packet t sock flags data len with hnone | hone
    · rw [hnone] at hsent
      exact absurd hsent (by simp)
    · rw [hone] at hsent
      exact (List.singleton_inj.mp (List.append_cancel_left hsent)).symm
  rw [hpkt] at hframe
  have hiff : Verifies frame ↔ Agree s.localIp (t.heap sock).localAddr :=
    verifies_sendPacket hlen hframe
  refine ⟨hiff, ?_⟩
  rintro ⟨ip, rfl, hip⟩ hbind hin
  rw [hiff]
  exact (Tcp.from_run hip hbind).sockets sock hin

/-- A socket bound to the address of `ip.c` connects to a neighbour. -/
theorem verifies_iff_agree_bound :
    let block : ℕ → Tcp.Block := fun addr => ⟨addr, Tcp.noData⟩
    let t := (runFrom Tcp.Stack.step (Tcp.tcpInit (fun _ => .zero) (some 0xC0A80001))
      [⟨.socket, [block 0x1000, block 0x2000, block 0x3000]⟩,
        ⟨.bind 0x1000 0xC0A80001 8080, []⟩,
        ⟨.connect 0x1000 0xC0A80002 80, [block 0x4000]⟩]).given [block 0x4000]
    let s := Sender.start (.arpAdd .arpInit 0xC0A80002 fun _ => 2) (some ⟨fun _ => 1, true⟩)
      [0x5000, 0x6000]
    ∃ pkt frame n, (Tcp.tcpTx t 0x1000 Tcp.tcpAck Tcp.noData 3).sent = t.sent ++ [pkt] ∧
      (sendPacket s pkt).frames = s.frames ++ [(frame, n)] ∧ Verifies frame := by
  intro block t s
  have hready : s.Ready 0xC0A80002 :=
    ⟨⟨0x5000, 0x6000, [], rfl, by decide, by decide⟩, ⟨fun _ => 2, by decide⟩, _, rfl, rfl⟩
  obtain ⟨pkt, hsent, hdst, htotal⟩ : ∃ pkt,
      (Tcp.tcpTx t 0x1000 Tcp.tcpAck Tcp.noData 3).sent = t.sent ++ [pkt] ∧
        pkt.dst = 0xC0A80002 ∧ pkt.total = 23 := ⟨_, rfl, rfl, rfl⟩
  obtain ⟨eth, -, hframe⟩ := @frames_ipSend s pkt.dst ipPTcp
    (fun i => (packetBytes pkt).getD i 0) pkt.total (hdst ▸ hready) (by rw [htotal]; decide)
  refine ⟨pkt, _, _, hsent, hframe, ?_⟩
  exact (verifies_iff_agree _ _ _ _ 0x1000 Tcp.tcpAck Tcp.noData 3 pkt s _ _ (by decide) hsent
    hframe).1.2 (by decide)

/-- A connection from an address that is not that of `ip.c`. -/
theorem connect_not_verifies :
    let block : ℕ → Tcp.Block := fun addr => ⟨addr, Tcp.noData⟩
    let t := runFrom Tcp.Stack.step (Tcp.tcpInit (fun _ => .zero) (some 0x0A00020F))
      [⟨.socket, [block 0x1000, block 0x2000, block 0x3000]⟩,
        ⟨.connect 0x1000 0x0A000202 80, [block 0x4000]⟩]
    let s := Sender.start (.arpAdd .arpInit 0xC0A80000 fun _ => 2) (some ⟨fun _ => 1, true⟩)
      [0x5000, 0x6000]
    ∃ pkt frame n, t.sent = [pkt] ∧ (sendPacket s pkt).frames = s.frames ++ [(frame, n)] ∧
      ¬ Verifies frame := by
  refine ⟨_, _, _, rfl, rfl, ?_⟩
  decide +kernel

end Net

end Kos
