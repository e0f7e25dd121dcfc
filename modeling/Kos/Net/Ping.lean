import Kos.Net.Sums
/-!
# Net — an echo request and its answer

A frame with an echo request goes up through `network_rx` and `ip_rx` to
`icmp_rx`, which calls `icmp_echo_reply`, and the answer goes down
through `ip_send`. What the host that asked gets back is the packet it
sent, but for the type and a checksum that is made anew and verifies; and
it does not answer that in its turn.
-/

namespace Kos

namespace Net

variable {s : Sender} {h : Host} {p : Proto} {dst : UInt32} {id seq : UInt16} {data : Tcp.Block}
  {packet old mem : ℕ → UInt8} {len n : UInt16}

/-! ## The packet of an answer -/

/-- The packet `icmp_echo_reply` hands to `ip_send`. -/
def echoReplyPacket (id seq : UInt16) (data : Tcp.Block) (len : UInt16) (old : ℕ → UInt8) :
    ℕ → UInt8 :=
  let packet := fillPacket old (echoHeader id seq).bytes data len
  writeList packet 2 (le16 (echoChecksum packet (icmpHeaderSize + len)))

theorem icmpEchoReply_eq (s : Sender) (dst : UInt32) (id seq : UInt16) (data : Tcp.Block)
    (len : UInt16) (old : ℕ → UInt8) : icmpEchoReply s dst id seq data len old =
      ipSend (s.kmallocOf (icmpHeaderSize + len)).2 dst ipPIcmp
        (echoReplyPacket id seq data len old) (icmpHeaderSize + len) := rfl

/-- What is written is read, -/
theorem read_writeList (mem : ℕ → UInt8) (pos : ℕ) (bytes : List UInt8) :
    Ring.read (writeList mem pos bytes) pos bytes.length = bytes := by
  have hsame : Ring.read (writeList mem pos bytes) pos bytes.length =
      Ring.read (fun i => bytes.getD i 0) 0 bytes.length := by
    refine Ring.read_congr fun i hi => ?_
    rw [writeList, Ring.copy, if_pos (by omega), Nat.add_sub_cancel_left, Nat.zero_add]
  exact hsame.trans (Ring.read_getD bytes 0)

/-- and what lies elsewhere stays. -/
theorem read_writeList_of_disjoint {pos m k : ℕ} {bytes : List UInt8}
    (hdisjoint : m + k ≤ pos ∨ pos + bytes.length ≤ m) :
    Ring.read (writeList mem pos bytes) m k = Ring.read mem m k := by
  refine Ring.read_congr fun i hi => ?_
  rw [writeList, Ring.copy, if_neg (by omega)]

theorem toNat_icmpTotal (hfit : 8 + len.toNat < 2 ^ 16) :
    (icmpHeaderSize + len).toNat = 8 + len.toNat := by
  rw [UInt16.toNat_add]
  exact Nat.mod_eq_of_lt hfit

/-- **The bytes of an answer.** -/
theorem read_echoReplyPacket (hdata : len = 0 ∨ data.addr ≠ 0) :
    ∃ c, c = echoChecksum (fillPacket old (echoHeader id seq).bytes data len)
        (icmpHeaderSize + len) ∧
      Ring.read (echoReplyPacket id seq data len old) 0 (8 + len.toNat) =
        [0, 0] ++ (le16 c ++ (be16 id ++ be16 seq ++ Ring.read data.bytes 0 len.toNat)) := by
  refine ⟨_, rfl, ?_⟩
  set c := echoChecksum (fillPacket old (echoHeader id seq).bytes data len) (icmpHeaderSize + len)
  set rest := be16 id ++ be16 seq ++ Ring.read data.bytes 0 len.toNat with hrest
  have hlength : rest.length = 4 + len.toNat := by
    rw [hrest, List.length_append, Ring.length_read]
    rfl
  have hfill : Ring.read (fillPacket old (echoHeader id seq).bytes data len) 0 (8 + len.toNat) =
      [0, 0] ++ (le16 0 ++ rest) := by
    rw [hrest]
    exact read_fillPacket old (echoHeader id seq).bytes hdata
  have htotal : ∀ w : UInt16, ([0, 0] ++ (le16 w ++ rest)).length = 8 + len.toNat := by
    intro w
    rw [List.length_append, List.length_append, hlength]
    change 2 + (2 + (4 + len.toNat)) = _
    omega
  rw [← htotal 0] at hfill
  rw [← htotal c]
  obtain ⟨htype, hbehind⟩ := Ring.read_append.1 hfill
  obtain ⟨-, hback⟩ := Ring.read_append.1 hbehind
  -- the checksum is written between what stays
  refine Ring.read_append.2 ⟨?_, Ring.read_append.2 ⟨read_writeList _ 2 (le16 c), ?_⟩⟩
  · exact (read_writeList_of_disjoint (Or.inl le_rfl)).trans htype
  · exact (read_writeList_of_disjoint (Or.inr le_rfl)).trans hback

/-- **A checksum that is put where there was none verifies.** -/
theorem foldSum_stamped {front back : List UInt8} (heven : Even front.length)
    (hlen : (front ++ (le16 0 ++ back)).length ≤ 2 ^ 16) :
    foldSum (sumWords 0 (front ++ (le16 (ipChecksum (front ++ (le16 0 ++ back))) ++ back))) =
      0xFFFF := by
  set bytes := front ++ (le16 0 ++ back)
  have hsum : ∀ w : UInt16, wordSum (front ++ (le16 w ++ back)) =
      wordSum front + (w.toNat + wordSum back) := by
    intro w
    have hle16 : Even (le16 w).length := (by decide : Even 2)
    rw [wordSum_append _ heven, wordSum_append back hle16, wordSum_le16]
  have hlength : (front ++ (le16 (ipChecksum bytes) ++ back)).length ≤ 2 ^ 17 - 3 := by
    refine le_trans (le_of_eq ?_) (hlen.trans (by decide))
    simp only [bytes, List.length_append]
    rfl
  have hmade : (sumWords 0 bytes).toNat = wordSum front + (0 + wordSum back) :=
    (toNat_sumWords_zero (hlen.trans (by decide))).trans (hsum 0)
  have hfound := (toNat_sumWords_zero hlength).trans (hsum _)
  have hchecksum : (ipChecksum bytes).toNat = 65535 - (foldSum (sumWords 0 bytes)).toNat :=
    toNat_complement _
  have hmod : (foldSum (sumWords 0 bytes)).toNat % 65535 = (sumWords 0 bytes).toNat % 65535 :=
    foldSum_modEq _
  have hlt := foldSum_lt (sumWords 0 bytes)
  have hpos : (sumWords 0 bytes).toNat = 0 → (foldSum (sumWords 0 bytes)).toNat = 0 := by
    intro hz
    rw [UInt32.toNat_inj.1 (hz.trans (show (0 : UInt32).toNat = 0 from rfl).symm)]
    rfl
  rw [foldSum_eq_ones_iff (by omega)]
  omega

/-- **An answer to a packet**: it has the same identifier, sequence number
and data, its type is that of a reply, and its checksum verifies. -/
structure EchoReply (request reply : List UInt8) : Prop where
  type : reply.take 2 = [icmpEchoReplyType, 0]
  rest : reply.drop 4 = request.drop 4
  verifies : foldSum (sumWords 0 reply) = 0xFFFF

/-- The packet made for the fields and the data of a request answers it. -/
theorem echoReply_packet {request : List UInt8} (hfit : 8 + len.toNat < 2 ^ 16)
    (hdata : len = 0 ∨ data.addr ≠ 0)
    (hrequest : request.drop 4 = be16 id ++ be16 seq ++ Ring.read data.bytes 0 len.toNat) :
    EchoReply request (Ring.read (echoReplyPacket id seq data len old) 0 (8 + len.toNat)) := by
  obtain ⟨c, hc, hread⟩ := read_echoReplyPacket hdata
  rw [hread]
  refine ⟨rfl, hrequest.symm, ?_⟩
  have hchecksum : c = ipChecksum ([0, 0] ++ (le16 0 ++
      (be16 id ++ be16 seq ++ Ring.read data.bytes 0 len.toNat))) := by
    have htotal : (icmpHeaderSize + len).toUInt32.toNat =
        (echoHeader id seq).bytes.length + len.toNat :=
      (UInt16.toNat_toUInt32 _).trans (toNat_icmpTotal hfit)
    rw [hc, echoChecksum_eq, ipChecksumLoop_eq, htotal, read_fillPacket old _ hdata]
    rfl
  rw [hchecksum]
  refine foldSum_stamped (by decide : Even 2) ?_
  rw [List.length_append, List.length_append, List.length_append, Ring.length_read]
  change 2 + (2 + (4 + len.toNat)) ≤ _
  omega

/-- **A field is stored as it was read.** -/
theorem be16_field16 (mem : ℕ → UInt8) (pos : ℕ) :
    be16 (field16 mem pos) = Ring.read mem pos 2 := by
  have hlo := (mem (pos + 1)).toNat_lt
  have hhi := (mem pos).toNat_lt
  have hshift : (field16 mem pos >>> 8).toNat = (field16 mem pos).toNat / 2 ^ 8 := by
    rw [UInt16.toNat_shiftRight]
    exact Nat.shiftRight_eq_div_pow _ 8
  have hnum : (field16 mem pos).toNat = (mem (pos + 1)).toNat + 2 ^ 8 * (mem pos).toNat :=
    toNat_word16 ..
  have hread : Ring.read mem pos 2 = [mem pos, mem (pos + 1)] := rfl
  rw [hread, be16]
  congr 1
  · rw [← UInt8.toNat_inj, UInt16.toNat_toUInt8, hshift, hnum]
    omega
  · congr 1
    rw [← UInt8.toNat_inj, UInt16.toNat_toUInt8, hnum]
    omega

/-! ## Up to the handler -/

/-- The handlers that do nothing. -/
def Handlers.keep : Handlers := ⟨fun h _ _ _ _ => h, fun h _ _ _ => h, fun h _ _ _ => h⟩

/-- On the way up nothing is written to the frame but the check field. -/
theorem networkRxTo_keep_mem {i : ℕ} (h24 : i ≠ 24) (h25 : i ≠ 25) :
    (networkRxTo .keep h n).mem i = h.mem i := by
  have hclear : clearCheck h.mem 14 i = h.mem i := clearCheck_of_ne h24 h25
  have hip : (ipRxTo .keep (h.touch 12 2) 14).mem i = h.mem i := by
    unfold ipRxTo ipDispatchTo
    simp only
    split_ifs <;> exact hclear
  have harp : (arpRx (h.touch 12 2) 14).mem i = h.mem i := by
    unfold arpRx
    simp only
    split_ifs <;> rfl
  unfold networkRxTo
  simp only
  split_ifs
  · rfl
  · exact hip
  · exact harp
  · rfl

/-- **A packet arrives**, with the address it was sent from. -/
theorem networkRx_arrives (packet : ℕ → UInt8) (hready : s.Ready dst) (hsize : p.headerSize ≤ len)
    (hfit : 34 + len.toNat ≤ 65535) :
    ∃ frame n, (ipSend s dst p.number packet len).frames = s.frames ++ [(frame, n)] ∧
      ∀ h : Host, h.localIp = dst → Ring.read h.mem 0 frame.length = frame →
        ∃ h', Delivered p packet len h h' ∧ field32 h'.mem 26 = s.localIp ∧
          ∀ k : Handlers, networkRxTo k h n =
            k.call p h' 14 34 (34 + p.headerSize.toNat) (len - p.headerSize) := by
  obtain ⟨eth, heth, hframes⟩ := @frames_ipSend s dst p.number packet len hready (by omega)
  refine ⟨_, _, hframes, fun h hours hread => ?_⟩
  obtain ⟨htype, hheader, hdata⟩ := read_frame heth hread
  rw [Ring.length_read] at hdata
  have hlong : (14 : UInt16) ≤ ethHeaderSize + (ipHeaderSize + len) := by
    rw [UInt16.le_iff_toNat_le, UInt16.toNat_add, UInt16.toNat_add]
    change 14 ≤ (14 + (20 + len.toNat) % 2 ^ 16) % 2 ^ 16
    omega
  obtain ⟨-, h', hdelivered, hcall⟩ := networkRxTo_datagram hlong htype hheader hdata hsize hours
  refine ⟨h', hdelivered, ?_, hcall⟩
  have hkeep : networkRxTo .keep h (ethHeaderSize + (ipHeaderSize + len)) = h' := by
    rw [hcall]
    cases p <;> rfl
  have hsaddr : field32 h.mem 26 = s.localIp := (IpHeader.fields hheader).2.2.2.2.1
  rw [← hsaddr, ← hkeep]
  simp only [field32, field16]
  rw [networkRxTo_keep_mem (by decide) (by decide), networkRxTo_keep_mem (by decide) (by decide),
    networkRxTo_keep_mem (by decide) (by decide), networkRxTo_keep_mem (by decide) (by decide)]

/-! ## There and back -/

/-- The call of `icmp_echo_reply` for a request, the data of which stand
at an address. -/
def Sender.answer (s : Sender) (e : Echo) (addr : ℕ) (old : ℕ → UInt8) : Sender :=
  icmpEchoReply s e.dst e.id e.seq ⟨addr, fun i => e.data.getD i 0⟩ (UInt16.ofNat e.data.length) old

/-- **Its answer arrives**: where the packet and what `ip_send` needs can
be had, one frame is sent, and the host it is for is given a reply to the
request by `ip_rx`, and does not answer it. -/
def Echo.Answers (e : Echo) (request : List UInt8) : Prop :=
  ∀ (r : Sender) (addr : ℕ) (old : ℕ → UInt8), addr ≠ 0 → r.kmalloc.1 ≠ 0 →
    r.kmalloc.2.Ready e.dst →
    ∃ frame n, (r.answer e addr old).frames = r.frames ++ [(frame, n)] ∧
      ∀ h : Host, h.localIp = e.dst → Ring.read h.mem 0 frame.length = frame →
        (networkRx h n).echoes = h.echoes ∧
          ∃ h', EchoReply request (Ring.read h'.mem 34 request.length) ∧
            ∀ k : Handlers, networkRxTo k h n =
              k.icmp h' 14 34 42 (UInt16.ofNat e.data.length)

@[simp] theorem Sender.kmalloc_frames (s : Sender) : s.kmalloc.2.frames = s.frames := by
  unfold Sender.kmalloc
  split <;> rfl

/-- A packet in two parts, its header and its payload. -/
theorem Delivered.whole {h' : Host} (hd : Delivered p packet len h h')
    (hsize : p.headerSize ≤ len) :
    Ring.read h'.mem 34 len.toNat = Ring.read packet 0 len.toNat := by
  have hsplit : len.toNat = p.headerSize.toNat + (len - p.headerSize).toNat := by
    have := UInt16.le_iff_toNat_le.1 hsize
    rw [hd.length]
    omega
  rw [hsplit, Ring.read_add, Ring.read_add, hd.header, hd.payload, Nat.zero_add]

/-- **A request that was recorded is answered.** -/
theorem echo_answers {e : Echo} {request : List UInt8} (hfit : 42 + e.data.length ≤ 65535)
    (hlength : request.length = 8 + e.data.length)
    (hrequest : request.drop 4 = be16 e.id ++ be16 e.seq ++ e.data) : e.Answers request := by
  intro r addr old haddr halloc hready
  set len := UInt16.ofNat e.data.length with hlen
  have hnum : len.toNat = e.data.length := UInt16.toNat_ofNat_of_lt' (by
    change e.data.length < 2 ^ 16
    omega)
  have htotal : (icmpHeaderSize + len).toNat = 8 + len.toNat := toNat_icmpTotal (by omega)
  have hkmalloc : r.kmallocOf (icmpHeaderSize + len) = r.kmalloc := by
    refine if_neg fun hz => ?_
    rw [← UInt16.toNat_inj, htotal] at hz
    exact absurd hz (by change 8 + len.toNat ≠ 0; omega)
  have hsize : Proto.headerSize .icmp ≤ icmpHeaderSize + len := by
    rw [UInt16.le_iff_toNat_le, htotal]
    exact Nat.le_add_right ..
  obtain ⟨frame, n, hframes, harrives⟩ := networkRx_arrives (p := .icmp)
    (echoReplyPacket e.id e.seq ⟨addr, fun i => e.data.getD i 0⟩ len old) hready hsize
    (by rw [htotal]; omega)
  rw [Sender.kmalloc_frames] at hframes
  refine ⟨frame, n, ?_, fun h hours hread => ?_⟩
  · rw [Sender.answer, icmpEchoReply_eq, hkmalloc]
    exact hframes
  · obtain ⟨h', hdelivered, -, hcall⟩ := harrives h hours hread
    have hwhole := hdelivered.whole hsize
    have hreply : EchoReply request (Ring.read h'.mem 34 request.length) := by
      rw [hlength, ← hnum, ← htotal, hwhole, htotal]
      refine echoReply_packet (by omega) (Or.inr haddr) ?_
      rw [hrequest, hnum, Ring.read_getD]
    have hcall' : ∀ k : Handlers, networkRxTo k h n = k.icmp h' 14 34 42 len := by
      intro k
      rw [hcall, show icmpHeaderSize + len - Proto.headerSize .icmp = len from
        add_sub_cancel_left icmpHeaderSize len]
      rfl
    refine ⟨?_, h', hreply, hcall'⟩
    have htype : h'.mem 34 = icmpEchoReplyType := by
      have hhead := congrArg (fun bytes : List UInt8 => bytes[0]?) hreply.type
      rw [List.getElem?_take_of_lt (by decide), Ring.getElem?_read (by omega)] at hhead
      exact Option.some.inj hhead
    have hno : ¬ (h'.touch 34 1).mem 34 = icmpEcho := by
      change ¬ h'.mem 34 = icmpEcho
      rw [htype]
      decide
    calc (networkRx h n).echoes = (icmpRx h' 14 34 42 len).echoes := by
          rw [← networkRxTo_kernel, hcall']
          rfl
      _ = h'.echoes := by rw [icmpRx, if_neg hno]; rfl
      _ = h.echoes := hdelivered.state.2.2.2

/-- **An echo request is answered.** A request that `ip_send` sends is
recorded once by the host it is for, with the address it came from, and
if that host has the memory, the neighbour and the device for it, the
host that asked gets the packet back: its identifier, sequence number and
data as they were, the type of a reply, and a checksum that verifies. -/
theorem echo_request_answered (hready : s.Ready dst) (htype : packet 0 = icmpEcho) (hlen : 8 ≤ len)
    (hfit : 34 + len.toNat ≤ 65535) :
    ∃ frame n, (ipSend s dst ipPIcmp packet len).frames = s.frames ++ [(frame, n)] ∧
      ∀ h : Host, h.localIp = dst → Ring.read h.mem 0 frame.length = frame →
        ∃ e, (networkRx h n).echoes = h.echoes ++ [e] ∧ e.dst = s.localIp ∧
          e.Answers (Ring.read packet 0 len.toNat) := by
  obtain ⟨frame, n, hframes, harrives⟩ := networkRx_arrives (p := .icmp) packet hready hlen hfit
  refine ⟨frame, n, hframes, fun h hours hread => ?_⟩
  obtain ⟨h', hdelivered, hfrom, hcall⟩ := harrives h hours hread
  have hwhole := hdelivered.whole hlen
  have hle : 8 ≤ len.toNat := UInt16.le_iff_toNat_le.1 hlen
  have hbyte : ∀ i < len.toNat, h'.mem (34 + i) = packet i := by
    intro i hi
    have hat := congrArg (fun bytes : List UInt8 => bytes[i]?) hwhole
    rw [Ring.getElem?_read hi, Ring.getElem?_read hi, Nat.zero_add] at hat
    exact Option.some.inj hat
  set e : Echo := ⟨field32 h'.mem 26, field16 h'.mem 38, field16 h'.mem 40,
    Ring.read h'.mem 42 (len - 8).toNat⟩ with he
  have hrecorded : (networkRx h n).echoes = h.echoes ++ [e] := by
    have hecho : h'.mem 34 = icmpEcho := (hbyte 0 (by omega)).trans htype
    rw [← networkRxTo_kernel, hcall, ← hdelivered.state.2.2.2]
    change (icmpRx h' 14 34 42 (len - 8)).echoes = _
    rw [icmpRx, if_pos (by exact hecho)]
    rfl
  have hdata : e.data.length = len.toNat - 8 := by
    rw [he, Ring.length_read]
    exact hdelivered.length
  refine ⟨e, hrecorded, hfrom, echo_answers (by omega) ?_ ?_⟩
  · rw [Ring.length_read, hdata]
    omega
  · -- the four bytes that are made anew, the fields and the data
    have hsplit : len.toNat = 4 + (2 + (2 + (len - 8).toNat)) := by
      rw [show (len - 8).toNat = len.toNat - 8 from hdelivered.length]
      omega
    rw [← hwhole, hsplit, Ring.read_add, Ring.read_add, Ring.read_add, ← be16_field16,
      ← be16_field16, List.append_assoc]
    exact List.drop_left' (Ring.length_read ..)

/-- A request with three bytes of data to a neighbour. -/
theorem echo_request_answered_neighbour :
    let arp := ArpTable.arpInit.arpAdd 0xC0A80002 fun _ => 2
    let s := Sender.start arp (some ⟨fun _ => 1, true⟩) [0x1000, 0x2000]
    let packet : ℕ → UInt8 := fun i => UInt8.ofNat (8 + i)
    ∃ frame n, (ipSend s 0xC0A80002 ipPIcmp packet 11).frames = s.frames ++ [(frame, n)] ∧
      ∀ h : Host, h.localIp = 0xC0A80002 → Ring.read h.mem 0 frame.length = frame →
        ∃ e, (networkRx h n).echoes = h.echoes ++ [e] ∧ e.dst = 0xC0A80001 ∧
          e.Answers [8, 9, 10, 11, 12, 13, 14, 15, 16, 17, 18] := by
  intro arp s packet
  have hready : s.Ready 0xC0A80002 :=
    ⟨⟨0x1000, 0x2000, [], rfl, by decide, by decide⟩, ⟨fun _ => 2, by decide⟩, _, rfl, rfl⟩
  exact echo_request_answered hready rfl (by decide) (by decide)

end Net

end Kos
