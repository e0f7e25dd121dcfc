import Kos.Common.Effects
import Kos.Net.Datagram
import Kos.Net.Segment
import Kos.Tcp.Handshake
/-!
# Net — the buffers of a packet

A payload is copied three times on its way down: by `tcp_tx`, `udp_tx`
or `icmp_echo_reply` behind their header, and by `ip_send` behind the IP
header and behind the Ethernet header. The first buffer is asked for
with a length that wraps at 16 bits and filled with the length that did
not; `ip_send` asks for its own without a wrap, but writes the wrapped
length into the header and hands on a frame of that. Only two of the
four look whether there is a buffer.
-/

namespace Kos

namespace Net

/-- A frame handed to the device, by its lengths: what each length field
of its headers says and the bytes that were copied for it, and the
length `tx` is called with and the bytes that were copied for the frame. -/
structure FrameLengths where
  fields : List (ℕ × ℕ)
  device : ℕ × ℕ
  deriving DecidableEq, Repr

/-- **The lengths describe what was copied.** The length `tx` is called
with is no field of a header; it is asked about if `device` is set. -/
structure FrameLengths.Exact (device : Bool) (frame : FrameLengths) : Prop where
  fields : ∀ p ∈ frame.fields, p.1 = p.2
  tx : device = true → frame.device.1 = frame.device.2

/-! ## The calls, effect by effect -/

/-- The lengths of the frame `ip_send` makes of a packet, of which its
caller copied `copied` bytes and wrote the length fields `fields`. -/
def frameLengths (fields : List (ℕ × ℕ)) (copied : ℕ) (len : UInt16) : FrameLengths where
  fields := ((ipHeaderSize + len).toNat, 20 + copied) :: fields
  device := ((ethHeaderSize + (ipHeaderSize + len)).toNat, 14 + (20 + copied))

/-- The effects of `ip_send`, which is called on its own with no `fields`
and all of the packet copied. The first request is made in `size_t`. -/
def ipSendEffects (s : Sender) (dst : UInt32) (fields : List (ℕ × ℕ)) (copied : ℕ) (len : UInt16) :
    List (Effect FrameLengths) :=
  let totalLen := ipHeaderSize + len
  let (addr, s) := s.kmalloc
  let ip : Buffer := ⟨addr, 20 + len.toNat⟩
  .alloc ip ::
    if addr = 0 then []
    else .copy ip 0 20 :: .copy ip 20 len.toNat ::
      match s.arp.arpLookup (s.nextHop dst) with
      | none => []
      | some _ =>
        let (addr, s) := s.kmalloc
        let eth : Buffer := ⟨addr, 14 + totalLen.toNat⟩
        .alloc eth ::
          if addr = 0 then []
          else .copy eth 0 14 :: .copy eth 14 totalLen.toNat ::
            match s.device with
            | none => []
            | some dev => if dev.tx then [.send (frameLengths fields copied len)] else []

/-- The copies of a header and of the data behind it. -/
def fillEffects (packet : Buffer) (header : ℕ) (data : Tcp.Block) (len : UInt16) :
    List (Effect FrameLengths) :=
  .copy packet 0 header ::
    if len ≠ 0 ∧ data.addr ≠ 0 then [.copy packet header len.toNat] else []

/-- The bytes they copy. -/
def filled (header : ℕ) (data : Tcp.Block) (len : UInt16) : ℕ :=
  header + if len ≠ 0 ∧ data.addr ≠ 0 then len.toNat else 0

/-- The effects of `tcp_tx`. -/
def tcpTxEffects (t : Tcp.Stack) (s : Sender) (sock : ℕ) (data : Tcp.Block) (len : UInt16) :
    List (Effect FrameLengths) :=
  if sock = 0 then []
  else
    let total := Tcp.tcpHeaderSize + len
    let packet : Buffer := ⟨if total = 0 then 0 else (Tcp.kmalloc t).1.addr, total.toNat⟩
    .alloc packet ::
      if packet.addr = 0 then []
      else fillEffects packet 20 data len ++
        ipSendEffects s (t.heap sock).remoteAddr [] (filled 20 data len) total

/-- The effects of `icmp_echo_reply`. The checksum is written last. -/
def icmpEchoReplyEffects (s : Sender) (dst : UInt32) (data : Tcp.Block) (len : UInt16) :
    List (Effect FrameLengths) :=
  let total := icmpHeaderSize + len
  let (addr, s) := s.kmallocOf total
  let packet : Buffer := ⟨addr, total.toNat⟩
  .alloc packet :: (fillEffects packet 8 data len ++
    .copy packet 2 2 :: ipSendEffects s dst [] (filled 8 data len) total)

/-- The effects of `udp_tx`, whose header has a length field. -/
def udpTxEffects (s : Sender) (dst : UInt32) (data : Tcp.Block) (len : UInt16) :
    List (Effect FrameLengths) :=
  let total := udpHeaderSize + len
  let (addr, s) := s.kmallocOf total
  let packet : Buffer := ⟨addr, total.toNat⟩
  .alloc packet :: (fillEffects packet 8 data len ++
    ipSendEffects s dst [((udpHeaderSize + len).toNat, filled 8 data len)] (filled 8 data len) total)

/-! ## What is asked of them -/

variable {t : Tcp.Stack} {s : Sender} {sock : ℕ} {dst : UInt32} {fields : List (ℕ × ℕ)} {copied : ℕ}
  {data : Tcp.Block} {len : UInt16} {P : FrameLengths → Prop}

@[simp] theorem Sender.kmalloc_arp (s : Sender) : s.kmalloc.2.arp = s.arp := by
  unfold Sender.kmalloc
  split <;> rfl

@[simp] theorem Sender.kmalloc_nextHop (s : Sender) (dst : UInt32) :
    s.kmalloc.2.nextHop dst = s.nextHop dst := by
  unfold Sender.kmalloc
  split <;> rfl

@[simp] theorem Sender.kmalloc_device (s : Sender) : s.kmalloc.2.device = s.device := by
  unfold Sender.kmalloc
  split <;> rfl

/-- What `ip_send` needs, in the order in which it asks for it. -/
theorem Sender.ready_iff : s.Ready dst ↔ s.kmalloc.1 ≠ 0 ∧
    (∃ mac, s.arp.arpLookup (s.nextHop dst) = some mac) ∧ s.kmalloc.2.kmalloc.1 ≠ 0 ∧
      ∃ dev, s.device = some dev ∧ dev.tx = true := by
  constructor
  · rintro ⟨⟨ip, eth, rest, hmem, hip, heth⟩, harp, hdev⟩
    refine ⟨?_, harp, ?_, hdev⟩
    · simpa only [Sender.kmalloc, hmem] using hip
    · simpa only [Sender.kmalloc, hmem] using heth
  · rintro ⟨hip, harp, heth, hdev⟩
    refine ⟨?_, harp, hdev⟩
    rcases hmem : s.mem with - | ⟨ip, - | ⟨eth, rest⟩⟩
    · exact absurd (by simp only [Sender.kmalloc, hmem]) hip
    · exact absurd (by simp only [Sender.kmalloc, hmem]) heth
    · simp only [Sender.kmalloc, hmem] at hip heth
      exact ⟨ip, eth, rest, rfl, hip, heth⟩

/-- **`ip_send` keeps to its buffers and stops without one.** All that is
left to ask about is the frame, if there is one. -/
theorem sound_ipSendEffects : Effect.Sound P (ipSendEffects s dst fields copied len) ↔
    (s.Ready dst → P (frameLengths fields copied len)) := by
  rw [Sender.ready_iff, ipSendEffects]
  simp only [Sender.kmalloc_arp, Sender.kmalloc_nextHop, Sender.kmalloc_device]
  -- `ip_send` is followed up to where it drops the packet
  by_cases hip : s.kmalloc.1 = 0
  · simp [hip]
  · cases harp : s.arp.arpLookup (s.nextHop dst) with
    | none => simp [hip]
    | some mac =>
      by_cases heth : s.kmalloc.2.kmalloc.1 = 0
      · simp [hip, heth]
      · cases hdev : s.device with
        | none => simp [hip, heth]
        | some dev =>
          by_cases htx : dev.tx = true
          · simp [hip, heth, htx]
          · simp [hip, heth, htx]

/-- The copies of a packet keep to it if its header and its data fit. -/
theorem sound_fillEffects {packet : Buffer} {header : ℕ} {es : List (Effect FrameLengths)}
    (hpos : 0 < header) (hlt : header < 2 ^ 16)
    (hsize : packet.size = (header + len.toNat) % 2 ^ 16) :
    Effect.Sound P (fillEffects packet header data len ++ es) ↔
      header + len.toNat < 2 ^ 16 ∧ Effect.Sound P es := by
  have hlen := len.toNat_lt
  -- where the length wraps, what is left of it is less than the header
  have hfit : 0 + header ≤ packet.size ↔ header + len.toNat < 2 ^ 16 := by omega
  have hdata : header + len.toNat < 2 ^ 16 → header + len.toNat ≤ packet.size := by omega
  rw [fillEffects, List.cons_append, Effect.sound_copy, hfit]
  refine and_congr_right fun hfits => ?_
  split
  · rw [List.cons_append, List.nil_append, Effect.sound_copy, and_iff_right (hdata hfits)]
  · rw [List.nil_append]

/-- The bytes of headers before a packet that the lengths count. -/
def headersCounted (device : Bool) : ℕ := if device then 34 else 20

/-- **What the lengths of a packet need**: that its data were copied, and
that they do not wrap. -/
def LengthsFit (device : Bool) (header : ℕ) (data : Tcp.Block) (len : UInt16) : Prop :=
  (len = 0 ∨ data.addr ≠ 0) ∧ headersCounted device + (header + len.toNat) < 2 ^ 16

/-- The lengths of a frame, all of the packet being copied. -/
theorem exact_frameLengths_iff {device : Bool} {total : UInt16} :
    (frameLengths fields copied total).Exact device ↔
      (20 + total.toNat) % 2 ^ 16 = 20 + copied ∧ (∀ p ∈ fields, p.1 = p.2) ∧
        (device = true → (34 + total.toNat) % 2 ^ 16 = 34 + copied) := by
  have htotal : (ipHeaderSize + total).toNat = (20 + total.toNat) % 2 ^ 16 := UInt16.toNat_add ..
  have hdevice : (ethHeaderSize + (ipHeaderSize + total)).toNat = (34 + total.toNat) % 2 ^ 16 := by
    rw [UInt16.toNat_add, htotal]
    change (14 + (20 + total.toNat) % 2 ^ 16) % 2 ^ 16 = _
    omega
  constructor
  · rintro ⟨hfields, htx⟩
    refine ⟨?_, fun p hp => hfields p (List.mem_cons_of_mem _ hp), fun hd => ?_⟩
    · rw [← htotal]
      exact hfields _ List.mem_cons_self
    · rw [← hdevice, show 34 + copied = 14 + (20 + copied) by omega]
      exact htx hd
  · rintro ⟨hip, hfields, htx⟩
    refine ⟨fun p hp => ?_, fun hd => ?_⟩
    · rcases List.mem_cons.mp hp with rfl | hp
      · exact htotal.trans hip
      · exact hfields p hp
    · change (ethHeaderSize + (ipHeaderSize + total)).toNat = 14 + (20 + copied)
      rw [hdevice, htx hd]
      omega

/-- A length of 16 bits is exact if all it counts was copied and it does
not wrap. -/
theorem mod_eq_filled_iff {header : ℕ} (before : ℕ) (hheader : before + header < 2 ^ 16) :
    (before + (header + len.toNat)) % 2 ^ 16 = before + filled header data len ↔
      (len = 0 ∨ data.addr ≠ 0) ∧ before + (header + len.toNat) < 2 ^ 16 := by
  have hlen := len.toNat_lt
  have hzero : len = 0 ↔ len.toNat = 0 := by rw [← UInt16.toNat_inj]; rfl
  rw [filled]
  split
  · rename_i hcopied
    rw [and_iff_right (Or.inr hcopied.2)]
    omega
  · rename_i hcopied
    have hnone : (len = 0 ∨ data.addr ≠ 0) ↔ len.toNat = 0 := by
      rw [← hzero, or_iff_left_of_imp]
      intro hdata
      by_contra hlen
      exact hcopied ⟨hlen, hdata⟩
    rw [hnone]
    omega

/-- **The lengths of a packet are exact** if its data were copied and
nothing wraps. -/
theorem exact_filled_iff {device : Bool} {header : ℕ} {total : UInt16} (hheader : header < 2 ^ 15)
    (htotal : total.toNat = header + len.toNat) :
    (frameLengths fields (filled header data len) total).Exact device ↔
      LengthsFit device header data len ∧ ∀ p ∈ fields, p.1 = p.2 := by
  rw [exact_frameLengths_iff, htotal, mod_eq_filled_iff 20 (by omega),
    mod_eq_filled_iff 34 (by omega), LengthsFit, headersCounted]
  cases device with
  | false =>
    simp only [Bool.false_eq_true, false_imp_iff, and_true, if_false]
  | true =>
    simp only [true_imp_iff, if_true]
    constructor
    · rintro ⟨-, hfields, hfit⟩
      exact ⟨hfit, hfields⟩
    · rintro ⟨⟨hcopied, hfit⟩, hfields⟩
      exact ⟨⟨hcopied, by omega⟩, hfields, hcopied, hfit⟩

/-! ## The four calls -/

/-- `ip_send` copies what it is given. -/
theorem sound_ipSend_iff {device : Bool} :
    Effect.Sound (FrameLengths.Exact device) (ipSendEffects s dst [] len.toNat len) ↔
      (s.Ready dst → headersCounted device + len.toNat < 2 ^ 16) := by
  rw [sound_ipSendEffects, exact_frameLengths_iff, headersCounted]
  refine imp_congr_right fun _ => ?_
  have hlen := len.toNat_lt
  cases device with
  | false =>
    simp only [Bool.false_eq_true, false_imp_iff, and_true, if_false, List.not_mem_nil,
      implies_true]
    omega
  | true =>
    simp only [true_imp_iff, if_true, List.not_mem_nil, false_imp_iff, implies_true, true_and]
    omega

/-- `ip_send` is handed a packet that was filled before. -/
theorem sound_filled_iff {device : Bool} {header : ℕ} {total : UInt16} (hheader : header < 2 ^ 15)
    (htotal : total.toNat = header + len.toNat)
    (hfields : LengthsFit device header data len → ∀ p ∈ fields, p.1 = p.2) :
    Effect.Sound (FrameLengths.Exact device)
        (ipSendEffects s dst fields (filled header data len) total) ↔
      (s.Ready dst → LengthsFit device header data len) := by
  rw [sound_ipSendEffects, exact_filled_iff hheader htotal, and_iff_left_of_imp hfields]

/-- `tcp_tx` looks whether there is a packet. -/
theorem sound_tcpTx_iff {device : Bool} :
    Effect.Sound (FrameLengths.Exact device) (tcpTxEffects t s sock data len) ↔
      sock = 0 ∨ (Tcp.kmalloc t).1.addr = 0 ∨ 20 + len.toNat = 2 ^ 16 ∨ (20 + len.toNat < 2 ^ 16 ∧
        (s.Ready (t.heap sock).remoteAddr → LengthsFit device 20 data len)) := by
  have htotal : (Tcp.tcpHeaderSize + len).toNat = (20 + len.toNat) % 2 ^ 16 := UInt16.toNat_add ..
  have hzero : Tcp.tcpHeaderSize + len = 0 ↔ 20 + len.toNat = 2 ^ 16 := by
    rw [← UInt16.toNat_inj, htotal]
    have hlen := len.toNat_lt
    change _ = 0 ↔ _
    omega
  by_cases hsock : sock = 0
  · simp [tcpTxEffects, hsock]
  · rw [tcpTxEffects, if_neg hsock, or_iff_right hsock]
    by_cases hwrap : Tcp.tcpHeaderSize + len = 0
    · -- `kmalloc` answers `NULL` to a request for nothing
      simp [hwrap, hzero.mp hwrap]
    · rw [or_iff_right (mt hzero.mpr hwrap)]
      by_cases hpacket : (Tcp.kmalloc t).1.addr = 0
      · simp [hpacket]
      · simp only [if_neg hwrap, hpacket, if_false, Effect.sound_alloc, false_imp_iff, true_and,
          false_or]
        rw [sound_fillEffects (by decide) (by decide) htotal]
        refine and_congr_right fun hfit => sound_filled_iff (by decide) ?_ fun _ => by simp
        rw [htotal, Nat.mod_eq_of_lt hfit]

/-- The first copy goes into the packet, whether there is one or not. -/
theorem sound_alloc_fillEffects {packet : Buffer} {header : ℕ} {es : List (Effect FrameLengths)} :
    Effect.Sound P (.alloc packet :: (fillEffects packet header data len ++ es)) ↔
      packet.addr ≠ 0 ∧ Effect.Sound P (fillEffects packet header data len ++ es) := by
  rw [Effect.sound_alloc]
  refine and_congr_left fun _ => ⟨fun h hnull => ?_, fun h hnull => absurd hnull h⟩
  refine h hnull (.copy packet 0 header) ?_ trivial
  rw [fillEffects, List.cons_append]
  exact List.mem_cons_self

theorem kmallocOf_of_pos {size : UInt16} (hpos : 0 < size.toNat) :
    s.kmallocOf size = s.kmalloc := by
  have hne : size ≠ 0 := by
    rintro rfl
    exact absurd hpos (Nat.lt_irrefl 0)
  rw [Sender.kmallocOf, if_neg hne]

/-- **A packet that nobody looks for**: there has to be one, and it has to
fit. -/
theorem sound_unchecked_iff {header : ℕ} {total : UInt16} (hpos : 0 < header)
    (hlt : header < 2 ^ 16) (htotal : total.toNat = (header + len.toNat) % 2 ^ 16)
    (es : ℕ × Sender → List (Effect FrameLengths)) :
    Effect.Sound P (.alloc ⟨(s.kmallocOf total).1, total.toNat⟩ ::
        (fillEffects ⟨(s.kmallocOf total).1, total.toNat⟩ header data len ++
          es (s.kmallocOf total))) ↔
      s.kmalloc.1 ≠ 0 ∧ header + len.toNat < 2 ^ 16 ∧ Effect.Sound P (es s.kmalloc) := by
  rw [sound_alloc_fillEffects, sound_fillEffects hpos hlt htotal, and_left_comm,
    and_left_comm (b := header + len.toNat < 2 ^ 16)]
  refine and_congr_right fun hfit => ?_
  -- a request that does not wrap is no request for nothing
  rw [Nat.mod_eq_of_lt hfit] at htotal
  rw [kmallocOf_of_pos (by omega)]

/-- `icmp_echo_reply` does not look. -/
theorem sound_icmpEchoReply_iff {device : Bool} :
    Effect.Sound (FrameLengths.Exact device) (icmpEchoReplyEffects s dst data len) ↔
      s.kmalloc.1 ≠ 0 ∧ 8 + len.toNat < 2 ^ 16 ∧
        (s.kmalloc.2.Ready dst → LengthsFit device 8 data len) := by
  have htotal : (icmpHeaderSize + len).toNat = (8 + len.toNat) % 2 ^ 16 := UInt16.toNat_add ..
  refine (sound_unchecked_iff (by decide) (by decide) htotal fun r =>
    .copy ⟨r.1, (icmpHeaderSize + len).toNat⟩ 2 2 ::
      ipSendEffects r.2 dst [] (filled 8 data len) (icmpHeaderSize + len)).trans ?_
  refine and_congr_right fun _ => and_congr_right fun hfit => ?_
  rw [Nat.mod_eq_of_lt hfit] at htotal
  have hcheck : 2 + 2 ≤ (icmpHeaderSize + len).toNat := by omega
  rw [Effect.sound_copy, and_iff_right hcheck,
    sound_filled_iff (by decide) htotal fun _ => by simp]

/-- Neither does `udp_tx`. -/
theorem sound_udpTx_iff {device : Bool} :
    Effect.Sound (FrameLengths.Exact device) (udpTxEffects s dst data len) ↔
      s.kmalloc.1 ≠ 0 ∧ 8 + len.toNat < 2 ^ 16 ∧
        (s.kmalloc.2.Ready dst → LengthsFit device 8 data len) := by
  have htotal : (udpHeaderSize + len).toNat = (8 + len.toNat) % 2 ^ 16 := UInt16.toNat_add ..
  refine (sound_unchecked_iff (by decide) (by decide) htotal fun r =>
    ipSendEffects r.2 dst [((udpHeaderSize + len).toNat, filled 8 data len)] (filled 8 data len)
      (udpHeaderSize + len)).trans ?_
  refine and_congr_right fun _ => and_congr_right fun hfit => ?_
  rw [Nat.mod_eq_of_lt hfit] at htotal
  refine sound_filled_iff (by decide) htotal fun hlengths p hp => ?_
  -- the length field of the header counts the same bytes
  rw [List.mem_singleton.mp hp]
  have hfield := (@mod_eq_filled_iff data len 8 0 (by decide)).mpr
    ⟨hlengths.1, by rwa [Nat.zero_add]⟩
  rw [Nat.zero_add, Nat.zero_add, Nat.mod_eq_of_lt hfit] at hfield
  exact htotal.trans hfield

/-! ## The record is of the calls -/

/-- `ip_send` hands on a frame exactly if it has what it needs. -/
theorem frames_ipSend_ne_iff {proto : UInt8} {payload : ℕ → UInt8} :
    (ipSend s dst proto payload len).frames ≠ s.frames ↔ s.Ready dst := by
  refine ⟨ready_of_frames_ne, fun hready => ?_⟩
  obtain ⟨ip, eth, rest, hmem, hip, heth⟩ := hready.mem
  obtain ⟨mac, hmac⟩ := hready.arp
  obtain ⟨dev, hdev, htx⟩ := hready.device
  rw [ipSend_eq hmem hip heth hmac hdev htx]
  exact fun h => absurd (List.append_right_eq_self.mp h) (List.cons_ne_nil _ _)

/-- And so does the record of it. -/
theorem send_mem_ipSendEffects_iff :
    (∃ frame, .send frame ∈ ipSendEffects s dst fields copied len) ↔ s.Ready dst := by
  have hsound : Effect.Sound (fun _ => True) (ipSendEffects s dst fields copied len) :=
    sound_ipSendEffects.mpr fun _ => trivial
  have hnone := @sound_ipSendEffects s dst fields copied len fun _ => False
  rw [imp_false] at hnone
  constructor
  · rintro ⟨frame, hframe⟩
    by_contra hready
    exact (hnone.mpr hready).messages frame hframe
  · intro hready
    by_contra hno
    exact hnone.mp ⟨hsound.within, fun frame hframe => hno ⟨frame, hframe⟩, hsound.stops⟩ hready

/-- Filling a packet sends nothing. -/
theorem send_mem_append_fillEffects {packet : Buffer} {header : ℕ} {frame : FrameLengths}
    {es : List (Effect FrameLengths)} :
    .send frame ∈ fillEffects packet header data len ++ es ↔ .send frame ∈ es := by
  rw [fillEffects, List.mem_append, or_iff_right]
  split
  · simp
  · simp

@[simp] theorem Sender.kmallocOf_frames (s : Sender) (size : UInt16) :
    (s.kmallocOf size).2.frames = s.frames := by
  unfold Sender.kmallocOf Sender.kmalloc
  split
  · rfl
  · split <;> rfl

/-- **`udp_tx` hands on a frame exactly if the record says so.** -/
theorem frames_udpTx_ne_iff (dport sport : UInt16) (old : ℕ → UInt8) :
    (udpTx s dst dport sport data len old).frames ≠ s.frames ↔
      ∃ frame, .send frame ∈ udpTxEffects s dst data len := by
  simp only [udpTxEffects, List.mem_cons, reduceCtorEq, false_or, send_mem_append_fillEffects,
    send_mem_ipSendEffects_iff]
  rw [← Sender.kmallocOf_frames s (udpHeaderSize + len)]
  exact frames_ipSend_ne_iff

/-- **So does `icmp_echo_reply`.** -/
theorem frames_icmpEchoReply_ne_iff (id seq : UInt16) (old : ℕ → UInt8) :
    (icmpEchoReply s dst id seq data len old).frames ≠ s.frames ↔
      ∃ frame, .send frame ∈ icmpEchoReplyEffects s dst data len := by
  simp only [icmpEchoReplyEffects, List.mem_cons, reduceCtorEq, false_or,
    send_mem_append_fillEffects, send_mem_ipSendEffects_iff]
  rw [← Sender.kmallocOf_frames s (icmpHeaderSize + len)]
  exact frames_ipSend_ne_iff

/-- **And `tcp_tx`**, except that `Tcp` does not know a request for
nothing. -/
theorem frames_tcpTx_ne_iff (flags : UInt8) (htotal : Tcp.tcpHeaderSize + len ≠ 0) :
    ((Tcp.sentSince t (Tcp.tcpTx t sock flags data.bytes len)).foldl sendPacket s).frames ≠
        s.frames ↔ ∃ frame, .send frame ∈ tcpTxEffects t s sock data len := by
  by_cases hsock : sock = 0
  · have hsent : (Tcp.tcpTx t sock flags data.bytes len).sent = t.sent := by
      simp only [Tcp.tcpTx, if_pos hsock]
    rw [Tcp.sentSince_self hsent.symm, tcpTxEffects, if_pos hsock]
    simp
  · simp only [tcpTxEffects, if_neg hsock, if_neg htotal]
    by_cases hpacket : (Tcp.kmalloc t).1.addr = 0
    · have hsent : (Tcp.tcpTx t sock flags data.bytes len).sent = t.sent := by
        simp only [Tcp.tcpTx, if_neg hsock, if_pos hpacket, Tcp.kmalloc_sent]
      rw [Tcp.sentSince_self hsent.symm]
      simp [hpacket]
    · have hsent : (Tcp.tcpTx t sock flags data.bytes len).sent = t.sent ++
          [⟨(t.heap sock).remoteAddr, Tcp.txHeader (t.heap sock) flags data.bytes len,
            Ring.read data.bytes 0 len.toNat, Tcp.tcpHeaderSize + len⟩] := by
        simp only [Tcp.tcpTx, if_neg hsock, if_neg hpacket, Tcp.modify_sent, Tcp.kmalloc_sent,
          Tcp.kmalloc_heap]
      rw [Tcp.sentSince_append hsent, List.foldl_cons, List.foldl_nil, sendPacket,
        frames_ipSend_ne_iff]
      simp only [if_neg hpacket, List.mem_cons, reduceCtorEq, false_or,
        send_mem_append_fillEffects, send_mem_ipSendEffects_iff]

/-! ## When all is well -/

/-- **The buffers of a packet.** For every payload and every length, no
copy runs over its buffer, the lengths of what is sent are those of what
was copied and a call that is refused a buffer stops, exactly if: for
`ip_send`, the lengths do not wrap or nothing is sent; for `tcp_tx`,
there is no packet, or its length does not wrap and neither do the
others if it is sent; for `udp_tx` and `icmp_echo_reply`, there is a
packet besides. A packet that is sent must have its data. -/
theorem buffers_sound_iff (device : Bool) (t : Tcp.Stack) (s : Sender) (sock : ℕ) (dst : UInt32)
    (data : Tcp.Block) (len : UInt16) :
    (Effect.Sound (FrameLengths.Exact device) (ipSendEffects s dst [] len.toNat len) ↔
      (s.Ready dst → headersCounted device + len.toNat < 2 ^ 16)) ∧
    (Effect.Sound (FrameLengths.Exact device) (tcpTxEffects t s sock data len) ↔
      sock = 0 ∨ (Tcp.kmalloc t).1.addr = 0 ∨ 20 + len.toNat = 2 ^ 16 ∨ (20 + len.toNat < 2 ^ 16 ∧
        (s.Ready (t.heap sock).remoteAddr → LengthsFit device 20 data len))) ∧
    (Effect.Sound (FrameLengths.Exact device) (udpTxEffects s dst data len) ↔
      s.kmalloc.1 ≠ 0 ∧ 8 + len.toNat < 2 ^ 16 ∧
        (s.kmalloc.2.Ready dst → LengthsFit device 8 data len)) ∧
    (Effect.Sound (FrameLengths.Exact device) (icmpEchoReplyEffects s dst data len) ↔
      s.kmalloc.1 ≠ 0 ∧ 8 + len.toNat < 2 ^ 16 ∧
        (s.kmalloc.2.Ready dst → LengthsFit device 8 data len)) :=
  ⟨sound_ipSend_iff, sound_tcpTx_iff, sound_udpTx_iff, sound_icmpEchoReply_iff⟩

/-- A host with a neighbour and a device that sends. -/
def readySender (mem : List ℕ) : Sender :=
  .start (.arpAdd .arpInit 0xC0A80002 fun _ => 2) (some ⟨fun _ => 1, true⟩) mem

theorem readySender_ready : (readySender [0x5000, 0x20000]).Ready 0xC0A80002 :=
  ⟨⟨0x5000, 0x20000, [], rfl, by decide, by decide⟩, ⟨fun _ => 2, by decide⟩, _, rfl, rfl⟩

/-- A socket with that neighbour. -/
def remoteStack : Tcp.Stack :=
  { Tcp.tcpInit (fun _ => { Tcp.Socket.zero with remoteAddr := 0xC0A80002 }) none with
    mem := [⟨0x1000, Tcp.noData⟩] }

/-- A datagram of 65530 bytes is copied into a packet of 2, one of a
single byte is copied to `NULL`, and a packet of 65530 bytes is sent
under a header that says 14. Each of the three callers of `ip_send`
copies 65530 bytes into too small a packet and has it sent. -/
theorem sends_unsoundly :
    let data : Tcp.Block := ⟨0x2000, Tcp.noData⟩
    let s := readySender [0x1000, 0x5000, 0x20000]
    let s' := readySender [0x5000, 0x20000]
    ¬ Effect.Sound (FrameLengths.Exact false) (udpTxEffects (.start .arpInit none [0x1000])
      0xC0A80002 data 65530) ∧
    ¬ Effect.Sound (FrameLengths.Exact false) (udpTxEffects (.start .arpInit none [])
      0xC0A80002 data 1) ∧
    ¬ Effect.Sound (FrameLengths.Exact false)
      (ipSendEffects s' 0xC0A80002 [] (65530 : UInt16).toNat 65530) ∧
    (¬ Effect.Sound (FrameLengths.Exact false) (udpTxEffects s 0xC0A80002 data 65530) ∧
      (udpTx s 0xC0A80002 53 53 data 65530 Tcp.noData).frames ≠ s.frames) ∧
    (¬ Effect.Sound (FrameLengths.Exact false) (icmpEchoReplyEffects s 0xC0A80002 data 65530) ∧
      (icmpEchoReply s 0xC0A80002 1 1 data 65530 Tcp.noData).frames ≠ s.frames) ∧
    ¬ Effect.Sound (FrameLengths.Exact false) (tcpTxEffects remoteStack s' 1 data 65530) ∧
      ((Tcp.sentSince remoteStack (Tcp.tcpTx remoteStack 1 Tcp.tcpAck data.bytes 65530)).foldl
        sendPacket s').frames ≠ s'.frames := by
  intro data s s'
  have hready : s'.Ready 0xC0A80002 := readySender_ready
  refine ⟨fun h => ?_, fun h => ?_, fun h => ?_, ⟨fun h => ?_, ?_⟩, ⟨fun h => ?_, ?_⟩,
    fun h => ?_, ?_⟩
  · exact absurd (sound_udpTx_iff.mp h).2.1 (by decide)
  · exact (sound_udpTx_iff.mp h).1 rfl
  · exact absurd (sound_ipSend_iff.mp h hready) (by decide)
  · exact absurd (sound_udpTx_iff.mp h).2.1 (by decide)
  · rw [frames_udpTx_ne_iff]
    simp only [udpTxEffects, List.mem_cons, reduceCtorEq, false_or, send_mem_append_fillEffects,
      send_mem_ipSendEffects_iff]
    exact hready
  · exact absurd (sound_icmpEchoReply_iff.mp h).2.1 (by decide)
  · rw [frames_icmpEchoReply_ne_iff]
    simp only [icmpEchoReplyEffects, List.mem_cons, reduceCtorEq, false_or,
      send_mem_append_fillEffects, send_mem_ipSendEffects_iff]
    exact hready
  · rcases sound_tcpTx_iff.mp h with hsock | hpacket | hlen | ⟨hlen, -⟩
    · exact absurd hsock (by decide)
    · exact absurd hpacket (by decide)
    · exact absurd hlen (by decide)
    · exact absurd hlen (by decide)
  · have htotal : Tcp.tcpHeaderSize + 65530 ≠ 0 := by decide
    have hpacket : (Tcp.kmalloc remoteStack).1.addr ≠ 0 := by decide
    rw [frames_tcpTx_ne_iff _ htotal]
    simp only [tcpTxEffects, one_ne_zero, if_false, if_neg htotal, if_neg hpacket, List.mem_cons,
      reduceCtorEq, false_or, send_mem_append_fillEffects, send_mem_ipSendEffects_iff]
    exact hready

end Net

end Kos
