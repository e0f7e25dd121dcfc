import Kos.Net.Segment
import Kos.Tcp.Handshake
/-!
# Net — what `tcp_send` reports

`tcp_send` returns the number of bytes it was given and does not know
what became of them: `tcp_tx` drops the segment if there is no memory,
`ip_send` drops it for want of memory, of an address or of a device, and
the lengths of both are kept in 16 bits. Nothing is put in the transmit
buffer, so what was dropped is lost. `snd_nxt` has moved past it if
there was memory for the segment.
-/

namespace Kos

namespace Net

variable {t : Tcp.Stack} {s s' : Sender} {sock : ℕ} {data : Tcp.Block} {len : UInt16}

/-- What a call of `tcp_send` leaves behind. -/
structure SendResult where
  result : Option UInt16
  stack : Tcp.Stack
  sender : Sender

/-- `tcp_send`, down to the device. -/
def sendDown (t : Tcp.Stack) (s : Sender) (sock : ℕ) (data : Tcp.Block) (len : UInt16) :
    SendResult :=
  let (result, t') := Tcp.tcpSend t sock data len
  ⟨result, t', (Tcp.sentSince t t').foldl sendPacket s⟩

/-- **Bytes are handed to the device**: behind the 54 bytes of headers of
a frame, in the length that `tx` is called with. -/
def Handed (s s' : Sender) (bytes : List UInt8) : Prop :=
  ∃ frame n, s'.frames = s.frames ++ [(frame, n)] ∧ (frame.take n.toNat).drop 54 = bytes

/-- **Bytes are held by the socket**: they were put in the transmit
buffer. -/
def Held (sock sock' : Tcp.Socket) (bytes : List UInt8) : Prop :=
  sock'.txQueue = sock.txQueue ++ bytes

/-- **What `tcp_send` returns is true**: the bytes it counts are handed to
the device or held by the socket; and where it counts none, `snd_nxt`
stays. -/
def Truthful (t : Tcp.Stack) (s : Sender) (sock : ℕ) (data : Tcp.Block) (len : UInt16) : Prop :=
  let r := sendDown t s sock data len
  match r.result with
  | some n =>
    if n = 0 then (r.stack.heap sock).sndNxt = (t.heap sock).sndNxt
    else Handed s r.sender (Ring.read data.bytes 0 n.toNat) ∨
      Held (t.heap sock) (r.stack.heap sock) (Ring.read data.bytes 0 n.toNat)
  | none => (r.stack.heap sock).sndNxt = (t.heap sock).sndNxt

/-! ## Nothing is held -/

theorem txQueue_tcpTx (t : Tcp.Stack) (sock : ℕ) (flags : UInt8) (data : ℕ → UInt8) (len : UInt16) :
    ((Tcp.tcpTx t sock flags data len).heap sock).txQueue = (t.heap sock).txQueue := by
  rcases Tcp.tcpTx_heap t sock flags data len with h | h
  · rw [h]
  · rw [h, Function.update_self]
    rfl

theorem not_held_tcpTx (flags : UInt8) {bytes : List UInt8} (hne : bytes ≠ []) :
    ¬ Held (t.heap sock) ((Tcp.tcpTx t sock flags data.bytes len).heap sock) bytes := by
  intro hheld
  rw [Held, txQueue_tcpTx] at hheld
  exact hne (List.self_eq_append_right.mp hheld)

/-! ## What is handed on -/

/-- The packet of a segment with data. -/
def sendPkt (sock : Tcp.Socket) (data : Tcp.Block) (len : UInt16) : Tcp.Packet :=
  ⟨sock.remoteAddr, Tcp.txHeader sock (Tcp.tcpAck ||| Tcp.tcpPsh) data.bytes len,
    Ring.read data.bytes 0 len.toNat, Tcp.tcpHeaderSize + len⟩

/-- Without a frame nothing is handed on. -/
theorem not_handed_of_frames {bytes : List UInt8} (h : s'.frames = s.frames) :
    ¬ Handed s s' bytes := by
  rintro ⟨frame, n, hframes, -⟩
  rw [h] at hframes
  exact absurd hframes (by simp)

/-- The length `tx` is called with. -/
theorem toNat_frameLength (len : UInt16) :
    (ethHeaderSize + (ipHeaderSize + (Tcp.tcpHeaderSize + len))).toNat =
      (54 + len.toNat) % 2 ^ 16 := by
  rw [UInt16.toNat_add, UInt16.toNat_add, UInt16.toNat_add]
  change (14 + (20 + (20 + len.toNat) % 2 ^ 16) % 2 ^ 16) % 2 ^ 16 = _
  omega

/-- **A segment that is sent is handed on whole** exactly if the frame of
it fits 16 bits. -/
theorem handed_sendPkt_iff (hready : s.Ready (t.heap sock).remoteAddr) (hpos : 0 < len.toNat) :
    Handed s (sendPacket s (sendPkt (t.heap sock) data len)) (Ring.read data.bytes 0 len.toNat) ↔
      len.toNat ≤ 65481 := by
  have hlt := len.toNat_lt
  constructor
  · rintro ⟨frame, n, hframes, hbytes⟩
    -- the frame that `ip_send` made, whatever is in it
    obtain ⟨ip, eth, rest, hmem, hip, heth⟩ := hready.mem
    obtain ⟨mac, hmac⟩ := hready.arp
    obtain ⟨dev, hdev, htx⟩ := hready.device
    have hsent := congrArg Sender.frames (@ipSend_eq s (t.heap sock).remoteAddr ipPTcp
      (fun i => (packetBytes (sendPkt (t.heap sock) data len)).getD i 0) (Tcp.tcpHeaderSize + len)
      ip eth rest mac dev hmem hip heth hmac hdev htx)
    have hpair := List.singleton_inj.mp (List.append_cancel_left (hframes.symm.trans hsent))
    have hn : n.toNat = (54 + len.toNat) % 2 ^ 16 := by
      rw [(Prod.mk.inj hpair).2]
      exact toNat_frameLength len
    have hlength := congrArg List.length hbytes
    rw [List.length_drop, List.length_take, Ring.length_read] at hlength
    omega
  · intro hfit
    have htotal : (Tcp.tcpHeaderSize + len).toNat = 20 + len.toNat := by
      rw [UInt16.toNat_add]
      change (20 + len.toNat) % 2 ^ 16 = _
      omega
    obtain ⟨eth, heth, hframes⟩ := @frames_ipSend s (t.heap sock).remoteAddr ipPTcp
      (fun i => (packetBytes (sendPkt (t.heap sock) data len)).getD i 0) (Tcp.tcpHeaderSize + len)
      hready (by omega)
    have hpacket : Ring.read (fun i => (packetBytes (sendPkt (t.heap sock) data len)).getD i 0) 0
        (Tcp.tcpHeaderSize + len).toNat = packetBytes (sendPkt (t.heap sock) data len) := by
      have hlen : (packetBytes (sendPkt (t.heap sock) data len)).length =
          (Tcp.tcpHeaderSize + len).toNat := by
        rw [packetBytes, List.length_append, htotal]
        exact congrArg (20 + ·) (Ring.length_read ..)
      rw [← hlen]
      exact Ring.read_getD _ 0
    refine ⟨_, _, hframes, ?_⟩
    rw [hpacket, toNat_frameLength, Nat.mod_eq_of_lt (by omega), packetBytes, ← List.append_assoc]
    set headers := eth ++ be16 ethPIp ++
      (s.ipHeader (t.heap sock).remoteAddr ipPTcp (ipHeaderSize + (Tcp.tcpHeaderSize + len))).bytes ++
      (sendPkt (t.heap sock) data len).tcp.bytes with hheaders
    have hlength : headers.length = 54 := by
      rw [hheaders, List.length_append, List.length_append, List.length_append, heth]
      rfl
    have hwhole : (headers ++ (sendPkt (t.heap sock) data len).data).length = 54 + len.toNat := by
      rw [List.length_append, hlength]
      exact congrArg (54 + ·) (Ring.length_read ..)
    rw [List.take_of_length_le hwhole.le, List.drop_left' hlength]
    rfl

/-! ## What is returned -/

/-- A call of `tcp_send` with bytes to send. -/
theorem sendDown_eq (s : Sender) (hsock : sock ≠ 0) (hest : (t.heap sock).state = .established)
    (hdata : data.addr ≠ 0) (hlen : len ≠ 0) : sendDown t s sock data len =
      ⟨some len, Tcp.tcpTx t sock (Tcp.tcpAck ||| Tcp.tcpPsh) data.bytes len,
        if (Tcp.kmalloc t).1.addr = 0 then s
        else sendPacket s (sendPkt (t.heap sock) data len)⟩ := by
  have hopen : ¬ (sock = 0 ∨ (t.heap sock).state ≠ .established) := by simp [hsock, hest]
  have hbytes : ¬ (data.addr = 0 ∨ len = 0) := by simp [hdata, hlen]
  simp only [sendDown, Tcp.tcpSend, if_neg hopen, if_neg hbytes]
  congr 1
  split
  · rename_i hnull
    have hnone : (Tcp.tcpTx t sock (Tcp.tcpAck ||| Tcp.tcpPsh) data.bytes len).sent = t.sent := by
      simp only [Tcp.tcpTx, if_neg hsock, if_pos hnull]
      exact Tcp.kmalloc_sent t
    rw [Tcp.sentSince_self hnone.symm, List.foldl_nil]
  · rename_i hpacket
    have hone : (Tcp.tcpTx t sock (Tcp.tcpAck ||| Tcp.tcpPsh) data.bytes len).sent =
        t.sent ++ [sendPkt (t.heap sock) data len] := by
      simp only [Tcp.tcpTx, if_neg hsock, if_neg hpacket, Tcp.modify_sent, Tcp.kmalloc_sent,
        Tcp.kmalloc_heap]
      rfl
    rw [Tcp.sentSince_append hone, List.foldl_cons, List.foldl_nil]

/-- **When `tcp_send` tells the truth.** On an established connection what
it returns is true exactly if there is nothing to send, or if the packet
can be allocated, `ip_send` has what it needs to send it, and the frame
of it fits 16 bits. -/
theorem truthful_iff (s : Sender) (data : Tcp.Block) (len : UInt16) (hsock : sock ≠ 0)
    (hest : (t.heap sock).state = .established) : Truthful t s sock data len ↔
      data.addr = 0 ∨ len = 0 ∨ ((Tcp.kmalloc t).1.addr ≠ 0 ∧
        s.Ready (t.heap sock).remoteAddr ∧ len.toNat ≤ 65481) := by
  by_cases hnone : data.addr = 0 ∨ len = 0
  · have hopen : ¬ (sock = 0 ∨ (t.heap sock).state ≠ .established) := by simp [hsock, hest]
    refine iff_of_true ?_ (hnone.imp_right Or.inl)
    simp only [Truthful, sendDown, Tcp.tcpSend, if_neg hopen, if_pos hnone, if_true]
  · have hrest : data.addr ≠ 0 ∧ len ≠ 0 := not_or.mp hnone
    have hpos : 0 < len.toNat := by
      refine Nat.pos_of_ne_zero fun hz => hrest.2 (UInt16.toNat_inj.mp ?_)
      exact hz
    have hbytes : Ring.read data.bytes 0 len.toNat ≠ [] := by
      intro hnil
      have := Ring.length_read data.bytes 0 len.toNat
      rw [hnil, List.length_nil] at this
      omega
    rw [Truthful, sendDown_eq s hsock hest hrest.1 hrest.2]
    simp only [hrest.1, hrest.2, if_false, false_or]
    rw [or_iff_left (not_held_tcpTx _ hbytes)]
    by_cases hpacket : (Tcp.kmalloc t).1.addr = 0
    · rw [if_pos hpacket]
      exact iff_of_false (not_handed_of_frames rfl) fun h => h.1 hpacket
    · rw [if_neg hpacket]
      by_cases hready : s.Ready (t.heap sock).remoteAddr
      · rw [handed_sendPkt_iff hready hpos]
        simp only [ne_eq, hpacket, not_false_eq_true, hready, true_and]
      · refine iff_of_false (not_handed_of_frames ?_) fun h => hready h.2.1
        by_contra hframes
        exact hready (ready_of_frames_ne hframes)

/-- An established connection to a neighbour. -/
def neighbourConnection (mem : List Tcp.Block) : Tcp.Stack :=
  let s : Tcp.Socket :=
    { Tcp.Socket.zero with
      state := .established, remoteAddr := 0xC0A80002, localPort := 49152, remotePort := 80,
      sndNxt := 7 }
  { Tcp.tcpInit (fun _ => s) none with sockets := [1], mem := mem }

/-- Three bytes to a neighbour that is in the ARP cache. -/
theorem truthful_iff_neighbour :
    let s := Sender.start (.arpAdd .arpInit 0xC0A80002 fun _ => 2) (some ⟨fun _ => 1, true⟩)
      [0x5000, 0x6000]
    Truthful (neighbourConnection [⟨0x4000, Tcp.noData⟩]) s 1 ⟨0x1000, UInt8.ofNat⟩ 3 := by
  intro s
  have hready : s.Ready 0xC0A80002 :=
    ⟨⟨0x5000, 0x6000, [], rfl, by decide, by decide⟩, ⟨fun _ => 2, by decide⟩, _, rfl, rfl⟩
  exact (truthful_iff s _ 3 (by decide) rfl).2 (Or.inr (Or.inr ⟨by decide, hready, by decide⟩))

/-- Three bytes to a neighbour that is not. -/
theorem send_without_arp_lost :
    let s := Sender.start .arpInit (some ⟨fun _ => 1, true⟩) [0x5000, 0x6000]
    let t := neighbourConnection [⟨0x4000, Tcp.noData⟩]
    let r := sendDown t s 1 ⟨0x1000, UInt8.ofNat⟩ 3
    r.result = some 3 ∧ r.sender.frames = [] ∧ (r.stack.heap 1).txQueue = [] ∧
      (r.stack.heap 1).sndNxt = (t.heap 1).sndNxt + 3 ∧
      ¬ Truthful t s 1 ⟨0x1000, UInt8.ofNat⟩ 3 := by
  intro s t r
  have hframes : r.sender.frames = [] := by decide
  have hqueue : (r.stack.heap 1).txQueue = [] := by decide
  refine ⟨by decide, hframes, hqueue, by decide, ?_⟩
  rintro (hhanded | hheld)
  · exact not_handed_of_frames hframes hhanded
  · rw [Held, hqueue] at hheld
    exact absurd hheld (by decide)

end Net

end Kos
