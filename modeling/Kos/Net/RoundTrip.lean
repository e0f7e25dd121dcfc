import Kos.Net.Bounds
import Kos.Net.Send
/-!
# Net — what is sent is received

A frame that `ip_send` made, handed to `network_rx` of the host it is
addressed to, passes the checks of `ip_rx` and reaches the handler of
its protocol with the packet it was made from. The model of the
receiving side runs its own handlers; here they are a parameter, so that
what they are called with can be said.
-/

namespace Kos

namespace Net

/-- The handlers `ip_rx` calls: `icmp_rx` is given the IP header too. -/
structure Handlers where
  icmp : Host → ℕ → ℕ → ℕ → UInt16 → Host
  tcp : Host → ℕ → ℕ → UInt16 → Host
  udp : Host → ℕ → ℕ → UInt16 → Host

/-- The handlers of the kernel. -/
def Handlers.kernel : Handlers := ⟨icmpRx, tcpRx, fun h _ _ _ => h⟩

/-- The end of `ip_rx`. -/
def ipDispatchTo (k : Handlers) (h : Host) (ip : ℕ) (ihl : UInt8) : Host :=
  let h := h.touch (ip + 2) 2
  let (dataLen, h) := h.sub16 (field16 h.mem (ip + 2)) ihl.toUInt16
  let payload := ip + ihl.toNat
  let h := h.touch (ip + 9) 1
  if h.mem (ip + 9) = ipPIcmp then
    h.passTo (fun h icmp data len => k.icmp h ip icmp data len) payload 8 dataLen
  else if h.mem (ip + 9) = ipPTcp then h.passTo k.tcp payload 20 dataLen
  else if h.mem (ip + 9) = ipPUdp then h.passTo k.udp payload 8 dataLen
  else h

/-- `ip_rx`. -/
def ipRxTo (k : Handlers) (h : Host) (ip : ℕ) : Host :=
  let ok := checksumOk h.mem ip
  let h := ((h.touch (ip + 10) 2).touch (ip + 10) 2).touch ip 20
  let h := { h with mem := clearCheck h.mem ip }
  if !ok then h
  else
    let h := h.touch ip 1
    let ihl := ihl h.mem ip
    if ihl < 20 then h
    else
      let h := h.touch (ip + 16) 4
      let dst := field32 h.mem (ip + 16)
      if dst ≠ h.localIp ∧ dst ≠ 0xFFFFFFFF then h
      else ipDispatchTo k h ip ihl

/-- `network_rx`. -/
def networkRxTo (k : Handlers) (h : Host) (len : UInt16) : Host :=
  if len < 14 then h
  else
    let h := h.touch 12 2
    if field16 h.mem 12 = ethPIp then ipRxTo k h 14
    else if field16 h.mem 12 = ethPArp then arpRx h 14
    else h

/-- With the handlers of the kernel it is the model of the receiving
side. -/
theorem networkRxTo_kernel (h : Host) (len : UInt16) :
    networkRxTo .kernel h len = networkRx h len := rfl

/-- The protocols that have a handler. -/
inductive Proto
  | icmp
  | tcp
  | udp
  deriving DecidableEq, Repr

/-- `IP_P_ICMP`, `IP_P_TCP` and `IP_P_UDP`. -/
def Proto.number : Proto → UInt8
  | .icmp => ipPIcmp
  | .tcp => ipPTcp
  | .udp => ipPUdp

/-- The size of the header. -/
def Proto.headerSize : Proto → UInt16
  | .icmp => 8
  | .tcp => 20
  | .udp => 8

/-- Call the handler of a protocol: the IP header, the header, the
payload and the length of it. -/
def Handlers.call (k : Handlers) : Proto → Host → ℕ → ℕ → ℕ → UInt16 → Host
  | .icmp, h, ip, header, payload, len => k.icmp h ip header payload len
  | .tcp, h, _, header, payload, len => k.tcp h header payload len
  | .udp, h, _, header, payload, len => k.udp h header payload len

variable {k : Handlers} {h : Host} {pos : ℕ} {p : Proto} {mem : ℕ → UInt8} {ip : IpHeader}

/-! ## The header -/

theorem field16_of_read {x : UInt16} (hread : Ring.read mem pos 2 = be16 x) :
    field16 mem pos = x := by
  have hbytes : [mem pos, mem (pos + 1)] = [(x >>> 8).toUInt8, x.toUInt8] := hread
  injection hbytes with hhi hrest
  injection hrest with hlo _
  rw [field16, hlo, hhi]
  exact word16_split x

/-- **A header is read back field by field.** -/
theorem IpHeader.fields (hread : Ring.read mem pos 20 = ip.bytes) :
    mem pos = ip.ihlVersion ∧ field16 mem (pos + 2) = ip.totLen ∧ mem (pos + 9) = ip.protocol ∧
      word16 (mem (pos + 10)) (mem (pos + 11)) = ip.check ∧
      field32 mem (pos + 12) = ip.saddr ∧ field32 mem (pos + 16) = ip.daddr := by
  have hbyte : ∀ i b, i < 20 → ip.bytes[i]? = some b → mem (pos + i) = b := by
    intro i b hi hb
    rw [← hread, Ring.getElem?_read hi] at hb
    exact Option.some.inj hb
  refine ⟨hbyte 0 _ (by decide) rfl, ?_, hbyte 9 _ (by decide) rfl, ?_, ?_, ?_⟩
  · rw [field16, hbyte 2 _ (by decide) rfl, hbyte 3 _ (by decide) rfl]
    exact word16_split ip.totLen
  · rw [hbyte 10 _ (by decide) rfl, hbyte 11 _ (by decide) rfl]
    exact word16_split ip.check
  · rw [field32, field16, field16, hbyte 12 _ (by decide) rfl, hbyte 13 _ (by decide) rfl,
      hbyte 14 _ (by decide) rfl, hbyte 15 _ (by decide) rfl]
    exact word32_split ip.saddr
  · rw [field32, field16, field16, hbyte 16 _ (by decide) rfl, hbyte 17 _ (by decide) rfl,
      hbyte 18 _ (by decide) rfl, hbyte 19 _ (by decide) rfl]
    exact word32_split ip.daddr

/-- The addresses of a header, as they are stored. -/
theorem IpHeader.read_addresses (hread : Ring.read mem pos 20 = ip.bytes) :
    Ring.read mem (pos + 12) 8 = be32 ip.saddr ++ be32 ip.daddr := by
  have hbytes : ip.bytes = ([ip.ihlVersion, ip.tos] ++ be16 ip.totLen ++ be16 ip.id ++
      le16 ip.fragOff ++ [ip.ttl, ip.protocol] ++ le16 ip.check) ++
      (be32 ip.saddr ++ be32 ip.daddr) := rfl
  rw [hbytes, show 20 = 12 + 8 from rfl, Ring.read_add] at hread
  exact (List.append_inj hread rfl).2

/-- What `ip_rx` computes the checksum of. -/
theorem IpHeader.read_clearCheck (hread : Ring.read mem pos 20 = ip.bytes) :
    Ring.read (clearCheck mem pos) pos 20 = { ip with check := 0 }.bytes := by
  -- the bytes before the field, the field, and those behind it
  let front := [ip.ihlVersion, ip.tos] ++ be16 ip.totLen ++ be16 ip.id ++ le16 ip.fragOff ++
    [ip.ttl, ip.protocol]
  let back := be32 ip.saddr ++ be32 ip.daddr
  have hsplit : ∀ c, { ip with check := c }.bytes = front ++ (le16 c ++ back) := fun c => rfl
  have hlen : ∀ c, (front ++ (le16 c ++ back)).length = 20 := fun c => rfl
  rw [show ip.bytes = front ++ (le16 ip.check ++ back) from hsplit ip.check, ← hlen ip.check,
    Ring.read_append] at hread
  obtain ⟨hfront, hrest⟩ := hread
  obtain ⟨-, hback⟩ := Ring.read_append.mp hrest
  rw [hsplit 0, ← hlen 0]
  refine Ring.read_append.mpr ⟨?_, Ring.read_append.mpr ⟨?_, ?_⟩⟩
  · refine (Ring.read_congr fun i hi => ?_).trans hfront
    have hi : i < 10 := hi
    exact clearCheck_of_ne (by omega) (by omega)
  · change [clearCheck mem pos (pos + 10), clearCheck mem pos (pos + 11)] = [0, 0]
    rw [clearCheck, Function.update_self, Function.update_of_ne (by omega), Function.update_self]
  · refine (Ring.read_congr fun i _ => ?_).trans hback
    change clearCheck mem pos (pos + 12 + i) = mem (pos + 12 + i)
    exact clearCheck_of_ne (by omega) (by omega)

/-- **The checksum of a header that was made is accepted.** -/
theorem checksumOk_ipHeader {s : Sender} {dst : UInt32} {proto : UInt8} {totalLen : UInt16}
    (hread : Ring.read mem pos 20 = (s.ipHeader dst proto totalLen).bytes) :
    checksumOk mem pos = true := by
  rw [checksumOk, IpHeader.read_clearCheck hread, (IpHeader.fields hread).2.2.2.1, beq_iff_eq]
  rfl

/-! ## The handler -/

theorem ipDispatchTo_eq {ihl : UInt8} (hproto : h.mem (pos + 9) = p.number) :
    ipDispatchTo k h pos ihl = (h.atSwitch pos ihl).passTo
      (fun h header payload len => k.call p h pos header payload len) (pos + ihl.toNat)
      p.headerSize (dataLen h.mem pos ihl) := by
  cases p with
  | icmp => exact if_pos hproto
  | tcp =>
    have hicmp : h.mem (pos + 9) ≠ ipPIcmp := by rw [hproto]; decide
    exact (if_neg hicmp).trans (if_pos hproto)
  | udp =>
    have hicmp : h.mem (pos + 9) ≠ ipPIcmp := by rw [hproto]; decide
    have htcp : h.mem (pos + 9) ≠ ipPTcp := by rw [hproto]; decide
    exact (if_neg hicmp).trans ((if_neg htcp).trans (if_pos hproto))

/-- **A header that is accepted reaches the switch.** -/
theorem ipRxTo_accepted {pos : ℕ} (haccept : Accepted h.localIp h.mem pos) : ipRxTo k h pos =
    ipDispatchTo k (((h.summed pos).touch pos 1).touch (pos + 16) 4) pos (ihl h.mem pos) := by
  obtain ⟨hsum, hihl, hdst⟩ := haccept
  obtain ⟨hihl', hdst', -, -⟩ := clearCheck_header h.mem pos
  have hlt : ¬ ihl (clearCheck h.mem pos) pos < 20 := by
    rw [hihl', UInt8.lt_iff_toNat_lt]
    exact Nat.not_lt.mpr hihl
  have hours : ¬ (field32 (clearCheck h.mem pos) (pos + 16) ≠ h.localIp ∧
      field32 (clearCheck h.mem pos) (pos + 16) ≠ 0xFFFFFFFF) := by
    rw [hdst']
    rintro ⟨h₁, h₂⟩
    exact hdst.elim h₁ h₂
  have hok : ¬ (!checksumOk h.mem pos) = true := by
    rw [hsum]
    decide
  rw [← hihl']
  exact (if_neg hok).trans ((if_neg hlt).trans (if_neg hours))

theorem ipRxTo_eq (haccept : Accepted h.localIp h.mem 14) : ipRxTo k h 14 =
    ipDispatchTo k (((h.summed 14).touch 14 1).touch 30 4) 14 (ihl h.mem 14) :=
  ipRxTo_accepted haccept

/-- **What a handler is given**: the packet stands behind the IP header,
split where its own header ends, and the host is as it was. -/
structure Delivered (p : Proto) (data : ℕ → UInt8) (len : UInt16) (h h' : Host) : Prop where
  header : Ring.read h'.mem 34 p.headerSize.toNat = Ring.read data 0 p.headerSize.toNat
  payload : Ring.read h'.mem (34 + p.headerSize.toNat) (len - p.headerSize).toNat =
    Ring.read data p.headerSize.toNat (len - p.headerSize).toNat
  length : (len - p.headerSize).toNat = len.toNat - p.headerSize.toNat
  state : h'.localIp = h.localIp ∧ h'.arpCache = h.arpCache ∧ h'.tcp = h.tcp ∧
    h'.echoes = h.echoes

/-- A datagram in memory: its header, made by `ip_send`, and the packet. -/
theorem networkRxTo_datagram {s : Sender} {dst : UInt32} {data : ℕ → UInt8} {len n : UInt16}
    (hn : 14 ≤ n) (htype : field16 h.mem 12 = ethPIp)
    (hread : Ring.read h.mem 14 20 = (s.ipHeader dst p.number (ipHeaderSize + len)).bytes)
    (hdata : Ring.read h.mem 34 len.toNat = Ring.read data 0 len.toNat)
    (hsize : p.headerSize ≤ len) (hours : h.localIp = dst) :
    Accepted h.localIp h.mem 14 ∧ ∃ h', Delivered p data len h h' ∧
      ∀ k : Handlers, networkRxTo k h n =
        k.call p h' 14 34 (34 + p.headerSize.toNat) (len - p.headerSize) := by
  obtain ⟨hversion, htot, hproto, -, -, hdst⟩ := IpHeader.fields hread
  have hihl : ihl h.mem 14 = 20 := by
    rw [ihl, show h.mem 14 = 0x45 from hversion]
    decide
  have haccept : Accepted h.localIp h.mem 14 := by
    refine ⟨checksumOk_ipHeader hread, ?_, Or.inl (hdst.trans hours.symm)⟩
    rw [hihl]
    decide
  refine ⟨haccept, ?_⟩
  -- the host when the handler is called
  let h₀ := (((h.touch 12 2).summed 14).touch 14 1).touch 30 4
  let h' := ((h₀.atSwitch 14 20).sub16 len p.headerSize).2.touch (34 + p.headerSize.toNat)
    (len - p.headerSize).toNat
  have hdataLen : dataLen h₀.mem 14 20 = len := by
    have hfield : field16 h₀.mem 16 = ipHeaderSize + len := (clearCheck_fields h.mem).2.2.1.trans htot
    rw [dataLen, hfield]
    exact add_sub_cancel_left ipHeaderSize len
  have hlen : (len - p.headerSize).toNat = len.toNat - p.headerSize.toNat :=
    toNat_sub16 h (UInt16.le_iff_toNat_le.mp hsize)
  have hpacket : Ring.read h'.mem 34 len.toNat = Ring.read data 0 len.toNat := by
    refine (Ring.read_congr fun i _ => ?_).trans hdata
    exact clearCheck_of_ne (by omega) (by omega)
  have hsplit : len.toNat = p.headerSize.toNat + (len - p.headerSize).toNat := by
    rw [hlen]
    exact (Nat.add_sub_cancel' (UInt16.le_iff_toNat_le.mp hsize)).symm
  rw [hsplit] at hpacket
  obtain ⟨hheader, hpayload⟩ := Ring.read_add_inj hpacket
  rw [Nat.zero_add] at hpayload
  refine ⟨h', ⟨hheader, hpayload, hlen, rfl, rfl, rfl, rfl⟩, fun k => ?_⟩
  have hlong : ¬ n < 14 := UInt16.not_lt.mpr hn
  have hhandler : h₀.mem 23 = p.number := (clearCheck_fields h.mem).2.2.2.trans hproto
  calc networkRxTo k h n = ipRxTo k (h.touch 12 2) 14 := (if_neg hlong).trans (if_pos htype)
    _ = ipDispatchTo k h₀ 14 (ihl h.mem 14) := ipRxTo_eq haccept
    _ = ipDispatchTo k h₀ 14 20 := by rw [hihl]
    _ = (h₀.atSwitch 14 20).passTo
        (fun h header payload len => k.call p h 14 header payload len) 34 p.headerSize
        (dataLen h₀.mem 14 20) := ipDispatchTo_eq hhandler
    _ = k.call p h' 14 34 (34 + p.headerSize.toNat) (len - p.headerSize) := by
      rw [hdataLen]
      rfl

/-- **The parts of a frame.** -/
theorem read_frame {eth packet : List UInt8} (heth : eth.length = 12)
    (hread : Ring.read mem 0 (eth ++ be16 ethPIp ++ ip.bytes ++ packet).length =
      eth ++ be16 ethPIp ++ ip.bytes ++ packet) :
    field16 mem 12 = ethPIp ∧ Ring.read mem 14 20 = ip.bytes ∧
      Ring.read mem 34 packet.length = packet := by
  rw [Ring.read_append, Ring.read_append, Ring.read_append] at hread
  obtain ⟨⟨⟨-, htype⟩, hheader⟩, hpacket⟩ := hread
  simp only [List.length_append, heth, IpHeader.length_bytes] at htype hheader hpacket
  exact ⟨field16_of_read htype, hheader, hpacket⟩

/-- **What `ip_send` sends, `network_rx` delivers.** A packet that has its
header and fits into a frame is handed to the device in one, and the
host it is for passes the same packet to the handler of its protocol. -/
theorem networkRx_ipSend {s : Sender} {dst : UInt32} {data : ℕ → UInt8} {len : UInt16}
    (hready : s.Ready dst) (hsize : p.headerSize ≤ len) (hfit : 34 + len.toNat ≤ 65535) :
    ∃ frame n, (ipSend s dst p.number data len).frames = s.frames ++ [(frame, n)] ∧
      n.toNat = frame.length ∧
      ∀ h : Host, h.localIp = dst → Ring.read h.mem 0 frame.length = frame →
        Accepted h.localIp h.mem 14 ∧ ∃ h', Delivered p data len h h' ∧
          ∀ k : Handlers, networkRxTo k h n =
            k.call p h' 14 34 (34 + p.headerSize.toNat) (len - p.headerSize) := by
  obtain ⟨eth, heth, hframes⟩ := @frames_ipSend s dst p.number data len hready (by omega)
  have hn : (ethHeaderSize + (ipHeaderSize + len)).toNat = 34 + len.toNat := by
    rw [UInt16.toNat_add, UInt16.toNat_add]
    change (14 + (20 + len.toNat) % 2 ^ 16) % 2 ^ 16 = _
    omega
  refine ⟨_, _, hframes, ?_, fun h hours hread => ?_⟩
  · rw [hn]
    simp only [List.length_append, heth, IpHeader.length_bytes, Ring.length_read]
    rfl
  · obtain ⟨htype, hheader, hdata⟩ := read_frame heth hread
    rw [Ring.length_read] at hdata
    refine networkRxTo_datagram ?_ htype hheader hdata hsize hours
    rw [UInt16.le_iff_toNat_le, hn]
    exact Nat.le_add_right_of_le (by decide)

/-- An ICMP packet of nine bytes to a neighbour. -/
theorem networkRx_ipSend_neighbour :
    let arp := ArpTable.arpInit.arpAdd 0xC0A80002 fun _ => 2
    let s := Sender.start arp (some ⟨fun _ => 1, true⟩) [0x1000, 0x2000]
    let data : ℕ → UInt8 := UInt8.ofNat
    s.Ready 0xC0A80002 ∧
      ∃ frame n, (ipSend s 0xC0A80002 Proto.icmp.number data 9).frames = s.frames ++ [(frame, n)] ∧
        n.toNat = frame.length ∧
        ∀ h : Host, h.localIp = 0xC0A80002 → Ring.read h.mem 0 frame.length = frame →
          Accepted h.localIp h.mem 14 ∧ ∃ h', Delivered .icmp data 9 h h' ∧
            ∀ k : Handlers, networkRxTo k h n =
              k.call .icmp h' 14 34 (34 + Proto.icmp.headerSize.toNat)
                (9 - Proto.icmp.headerSize) := by
  intro arp s data
  have hready : s.Ready 0xC0A80002 :=
    ⟨⟨0x1000, 0x2000, [], rfl, by decide, by decide⟩, ⟨fun _ => 2, by decide⟩, _, rfl, rfl⟩
  exact ⟨hready, networkRx_ipSend hready (by decide) (by decide)⟩

end Net

end Kos
