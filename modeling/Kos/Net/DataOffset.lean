import Kos.Net.Segment
import Kos.Net.Verify
import Kos.Tcp.Fifo
/-!
# Net — where the data of a segment start

RFC 793 keeps the length of a TCP header in the high four bits of byte
12, in words; what lies between byte 20 and there are options. `ip_rx`
takes everything behind byte 20 for data, so that of a segment with
options these are stored in front of its data. And `tcp_tx` writes the
length to the low four bits of the byte: what it sends has a header of
no bytes at all for a receiver that reads it as RFC 793 says.
-/

namespace Kos

namespace Net

variable {h : Host} {ip sock : ℕ}

/-- Data Offset: the high four bits of byte 12. -/
def dataOffset (mem : ℕ → UInt8) (tcp : ℕ) : ℕ := (mem (tcp + 12) >>> 4).toNat

/-- **The data of a segment of `total` bytes**, as RFC 793 has them. -/
def rfcPayload (mem : ℕ → UInt8) (tcp total : ℕ) : List UInt8 :=
  Ring.read mem (tcp + 4 * dataOffset mem tcp) (total - 4 * dataOffset mem tcp)

/-- Where the segment in a datagram starts. -/
def segmentAt (mem : ℕ → UInt8) (ip : ℕ) : ℕ := ip + (ihl mem ip).toNat

/-- How long it is. -/
def segmentLength (mem : ℕ → UInt8) (ip : ℕ) : ℕ :=
  (field16 mem (ip + 2)).toNat - (ihl mem ip).toNat

/-- **A segment for this host**, in an IP header that is accepted: its
header is at least five words long and lies within it. -/
structure IsSegment (h : Host) (ip : ℕ) : Prop where
  accepted : Accepted h.localIp h.mem ip
  tcp : h.mem (ip + 9) = ipPTcp
  words : 5 ≤ dataOffset h.mem (segmentAt h.mem ip)
  fits : 4 * dataOffset h.mem (segmentAt h.mem ip) ≤ segmentLength h.mem ip

/-! ## What `tcp_rx` is given -/

/-- The rest of a segment is its data exactly if its header has five
words. -/
theorem read_eq_rfcPayload_iff {mem : ℕ → UInt8} {tcp total : ℕ} (hwords : 5 ≤ dataOffset mem tcp)
    (hfits : 4 * dataOffset mem tcp ≤ total) :
    Ring.read mem (tcp + 20) (total - 20) = rfcPayload mem tcp total ↔ dataOffset mem tcp = 5 := by
  constructor
  · intro heq
    have hlength := congrArg List.length heq
    rw [rfcPayload, Ring.length_read, Ring.length_read] at hlength
    omega
  · intro hfive
    rw [rfcPayload, hfive]

theorem toNat_segmentLength (hseg : IsSegment h ip) :
    (dataLen h.mem ip (ihl h.mem ip) - 20).toNat = segmentLength h.mem ip - 20 := by
  have hwords := hseg.words
  have hfits := hseg.fits
  unfold segmentLength at hfits ⊢
  have hihl : (ihl h.mem ip).toUInt16.toNat = (ihl h.mem ip).toNat := UInt8.toNat_toUInt16 _
  have hlen : (dataLen h.mem ip (ihl h.mem ip)).toNat =
      (field16 h.mem (ip + 2)).toNat - (ihl h.mem ip).toUInt16.toNat :=
    toNat_sub16 h (by omega)
  have htwenty : (20 : UInt16).toNat = 20 := rfl
  have hsub := toNat_sub16 h (a := dataLen h.mem ip (ihl h.mem ip)) (b := 20) (by omega)
  rw [← hihl, ← hlen]
  exact hsub

/-- **What `ip_rx` hands to `tcp_rx`**: everything behind byte 20 of the
segment. -/
theorem ipRxTo_segment (hseg : IsSegment h ip) :
    ∃ h' : Host, h'.mem = clearCheck h.mem ip ∧ h'.tcp = h.tcp ∧ ∀ k : Handlers,
      ipRxTo k h ip = k.tcp h' (segmentAt h.mem ip) (segmentAt h.mem ip + 20)
        (dataLen h.mem ip (ihl h.mem ip) - 20) := by
  have hproto : (((h.summed ip).touch ip 1).touch (ip + 16) 4).mem (ip + 9) = Proto.tcp.number :=
    (clearCheck_header h.mem ip).2.2.2.trans hseg.tcp
  have hlen : dataLen (((h.summed ip).touch ip 1).touch (ip + 16) 4).mem ip (ihl h.mem ip) =
      dataLen h.mem ip (ihl h.mem ip) :=
    congrArg (· - (ihl h.mem ip).toUInt16) (clearCheck_header h.mem ip).2.2.1
  -- the host when the handler is called
  let h₀ := (((h.summed ip).touch ip 1).touch (ip + 16) 4).atSwitch ip (ihl h.mem ip)
  let len := dataLen h.mem ip (ihl h.mem ip)
  refine ⟨(h₀.sub16 len 20).2.touch (segmentAt h.mem ip + 20) (len - 20).toNat, rfl, rfl,
    fun k => ?_⟩
  rw [ipRxTo_accepted hseg.accepted, ipDispatchTo_eq hproto, hlen]
  rfl

/-- The segment is behind the check field that is cleared. -/
theorem clearCheck_segment (hseg : IsSegment h ip) (i : ℕ) :
    clearCheck h.mem ip (segmentAt h.mem ip + i) = h.mem (segmentAt h.mem ip + i) := by
  have hihl := hseg.accepted.2.1
  unfold segmentAt
  exact clearCheck_of_ne (by omega) (by omega)

/-- The header of a segment as `tcp_rx` reads it. -/
def headerAt (mem : ℕ → UInt8) (tcp : ℕ) : Tcp.TcpHeader :=
  { srcPort := field16 mem tcp, dstPort := field16 mem (tcp + 2), seq := field32 mem (tcp + 4),
    ack := field32 mem (tcp + 8), dataOff := 0, flags := mem (tcp + 13), window := 0, checksum := 0,
    urgent := 0 }

/-- A segment that finds a socket. -/
theorem tcpRx_found {tcp payload : ℕ} {len : UInt16}
    (hfound : h.tcp.lookup (field16 h.mem (tcp + 2)) (field16 h.mem tcp) = some sock) :
    (tcpRx h tcp payload len).tcp =
      Tcp.tcpRx h.tcp (headerAt h.mem tcp) (fun i => h.mem (payload + i)) len := by
  unfold tcpRx
  simp only [touch_mem]
  split
  · rename_i hnone
    exact absurd (hfound.symm.trans hnone) (Option.some_ne_none sock)
  · rfl

/-- **What is stored of a segment in order**: all that `tcp_rx` is given,
if there is room for it. -/
theorem queue_ipRx (hseg : IsSegment h ip)
    (hfound : h.tcp.lookup (field16 h.mem (segmentAt h.mem ip + 2))
      (field16 h.mem (segmentAt h.mem ip)) = some sock)
    (hest : (h.tcp.heap sock).state = .established)
    (hseq : field32 h.mem (segmentAt h.mem ip + 4) = (h.tcp.heap sock).rcvNxt)
    (hroom : (h.tcp.heap sock).avail + (segmentLength h.mem ip - 20) ≤ 65536) :
    ((ipRx h ip).tcp.heap sock).queue = (h.tcp.heap sock).queue ++
      Ring.read h.mem (segmentAt h.mem ip + 20) (segmentLength h.mem ip - 20) := by
  obtain ⟨h', hmem, htcp, hcall⟩ := ipRxTo_segment hseg
  have hrx : ipRx h ip = tcpRx h' (segmentAt h.mem ip) (segmentAt h.mem ip + 20)
      (dataLen h.mem ip (ihl h.mem ip) - 20) := hcall .kernel
  have hbytes : ∀ i, h'.mem (segmentAt h.mem ip + i) = h.mem (segmentAt h.mem ip + i) := by
    rw [hmem]
    exact clearCheck_segment hseg
  have hheader : headerAt h'.mem (segmentAt h.mem ip) = headerAt h.mem (segmentAt h.mem ip) := by
    have hfirst := hbytes 0
    rw [Nat.add_zero] at hfirst
    simp only [headerAt, field32, field16, Nat.add_assoc, hbytes, hfirst]
  have hlookup : h'.tcp.lookup (field16 h'.mem (segmentAt h.mem ip + 2))
      (field16 h'.mem (segmentAt h.mem ip)) = some sock := by
    rw [htcp]
    exact (congrArg (fun tcp : Tcp.TcpHeader => h.tcp.lookup tcp.dstPort tcp.srcPort) hheader).trans
      hfound
  have hlisten : (h.tcp.heap sock).state ≠ .listen := by
    rw [hest]
    exact Tcp.TcpState.noConfusion
  have hself : (ipRx h ip).tcp.heap sock = (h.tcp.heap sock).receive
      (headerAt h.mem (segmentAt h.mem ip)) (fun i => h'.mem (segmentAt h.mem ip + 20 + i))
      (dataLen h.mem ip (ihl h.mem ip) - 20) := by
    rw [hrx, tcpRx_found hlookup, hheader, htcp, Tcp.tcpRx_heap _ _ hfound hlisten,
      Function.update_self]
  have hlen := toNat_segmentLength hseg
  rw [hself, Tcp.receive_inOrder hest hseq (by omega), hlen, Nat.min_eq_left (by omega)]
  refine congrArg _ (List.map_congr_left fun i _ => ?_)
  rw [Nat.add_assoc, hbytes]

/-! ## The two ends -/

/-- **A segment decodes to a header of 20 bytes and a payload.** -/
def Decodes (bytes payload : List UInt8) : Prop :=
  let mem := fun i => bytes.getD i 0
  4 * dataOffset mem 0 = 20 ∧ rfcPayload mem 0 bytes.length = payload

/-- `tcp_tx` writes the length of the header to the wrong half of the
byte. -/
theorem not_decodes_tcpTx {t : Tcp.Stack} {flags : UInt8} {data : ℕ → UInt8} {len : UInt16}
    {pkt : Tcp.Packet} (hsent : (Tcp.tcpTx t sock flags data len).sent = t.sent ++ [pkt]) :
    ¬ Decodes (packetBytes pkt) pkt.data := by
  rcases Tcp.tcpTx_packet t sock flags data len with hnone | hone
  · rw [hnone] at hsent
    exact absurd hsent (by simp)
  · rw [hone] at hsent
    rw [← List.singleton_inj.mp (List.append_cancel_left hsent)]
    rintro ⟨hlength, -⟩
    -- byte 12 is 5, its high half is 0
    have hbyte : (packetBytes ⟨(t.heap sock).remoteAddr, Tcp.txHeader (t.heap sock) flags data len,
        Ring.read data 0 len.toNat, Tcp.tcpHeaderSize + len⟩).getD (0 + 12) 0 = 5 := rfl
    rw [dataOffset, hbyte] at hlength
    exact absurd hlength (by decide)

/-- **When the two ends read a header alike.** What `ip_rx` hands to
`tcp_rx` of a segment is what RFC 793 takes for its data exactly if its
Data Offset is 5; and so is what an established connection stores of a
segment in order that it has room for. What `tcp_tx` sends never decodes
to a header of 20 bytes and the payload. -/
theorem dataOffset_respected_iff (h : Host) (ip : ℕ) (hseg : IsSegment h ip) :
    let tcp := segmentAt h.mem ip
    let data := rfcPayload h.mem tcp (segmentLength h.mem ip)
    ((∃ (h' : Host) (payload : ℕ) (len : UInt16),
        (∀ k : Handlers, ipRxTo k h ip = k.tcp h' tcp payload len) ∧
          (Ring.read h'.mem payload len.toNat = data ↔ dataOffset h.mem tcp = 5)) ∧
      ∀ sock, h.tcp.lookup (field16 h.mem (tcp + 2)) (field16 h.mem tcp) = some sock →
        (h.tcp.heap sock).state = .established →
        field32 h.mem (tcp + 4) = (h.tcp.heap sock).rcvNxt →
        (h.tcp.heap sock).avail + (segmentLength h.mem ip - 20) ≤ 65536 →
        (((ipRx h ip).tcp.heap sock).queue = (h.tcp.heap sock).queue ++ data ↔
          dataOffset h.mem tcp = 5)) ∧
    (∀ (t : Tcp.Stack) (sock : ℕ) (flags : UInt8) (data : ℕ → UInt8) (len : UInt16)
      (pkt : Tcp.Packet), (Tcp.tcpTx t sock flags data len).sent = t.sent ++ [pkt] →
      ¬ Decodes (packetBytes pkt) pkt.data) := by
  refine ⟨⟨?_, fun sock hfound hest hseq hroom => ?_⟩,
    fun _ _ _ _ _ _ hsent => not_decodes_tcpTx hsent⟩
  · obtain ⟨h', hmem, -, hcall⟩ := ipRxTo_segment hseg
    refine ⟨h', _, _, hcall, ?_⟩
    rw [← read_eq_rfcPayload_iff hseg.words hseg.fits, toNat_segmentLength hseg, hmem]
    have hsame : Ring.read (clearCheck h.mem ip) (segmentAt h.mem ip + 20)
        (segmentLength h.mem ip - 20) =
        Ring.read h.mem (segmentAt h.mem ip + 20) (segmentLength h.mem ip - 20) := by
      refine Ring.read_congr fun i _ => ?_
      rw [Nat.add_assoc]
      exact clearCheck_segment hseg (20 + i)
    rw [hsame]
  · rw [queue_ipRx hseg hfound hest hseq hroom, List.append_cancel_left_eq,
      read_eq_rfcPayload_iff hseg.words hseg.fits]

/-- An established connection to port 80 of a neighbour. -/
def openConnection : Tcp.Stack :=
  let s : Tcp.Socket :=
    { Tcp.Socket.zero with
      state := .established, localPort := 49152, remotePort := 80, rcvNxt := 7 }
  { Tcp.tcpInit (fun _ => s) none with sockets := [1] }

/-- A datagram with one byte of data for it, behind a TCP header whose
byte 12 is given and four bytes that are options if that says so. -/
def oneByteSegment (byte12 : UInt8) : ℕ → UInt8 :=
  stamp (fun i => [0x45, 0, 0, 45, 0, 0, 0, 0, 64, 6, 0, 0, 10, 0, 2, 2, 10, 0, 2, 15, 0, 80, 0xC0, 0,
    0, 0, 0, 7, 0, 0, 0, 0, byte12, 0x10, 0, 0, 0, 0, 0, 0, 1, 1, 1, 0, 42].getD i 0) 0

/-- The segment without options: all five bytes are data. -/
theorem dataOffset_respected_iff_no_options :
    let h := Host.start (oneByteSegment 0x50) 0x0A00020F [] openConnection
    ((ipRx h 0).tcp.heap 1).queue =
      (h.tcp.heap 1).queue ++ rfcPayload h.mem (segmentAt h.mem 0) (segmentLength h.mem 0) := by
  intro h
  have hseg : IsSegment h 0 :=
    ⟨⟨checksumOk_stamp _ _, by decide, Or.inl (by decide)⟩, by decide, by decide, by decide⟩
  exact ((dataOffset_respected_iff h 0 hseg).1.2 1 (by decide) rfl (by decide) (by decide)).2
    (by decide)

/-- Four bytes of options: they are stored in front of the data. -/
theorem options_are_stored :
    let h := Host.start (oneByteSegment 0x60) 0x0A00020F [] openConnection
    IsSegment h 0 ∧ rfcPayload h.mem 20 25 = [42] ∧
      ((ipRx h 0).tcp.heap 1).queue = [1, 1, 1, 0, 42] ∧
      ((ipRx h 0).tcp.heap 1).queue ≠ (h.tcp.heap 1).queue ++ rfcPayload h.mem 20 25 := by
  intro h
  have hseg : IsSegment h 0 :=
    ⟨⟨checksumOk_stamp _ _, by decide, Or.inl (by decide)⟩, by decide, by decide, by decide⟩
  have hstored : ((ipRx h 0).tcp.heap 1).queue = [1, 1, 1, 0, 42] := by
    rw [queue_ipRx hseg (by decide) rfl (by decide) (by decide)]
    decide
  refine ⟨hseg, by decide, hstored, ?_⟩
  rw [hstored]
  decide

end Net

end Kos
