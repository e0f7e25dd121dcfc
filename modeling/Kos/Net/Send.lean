import Kos.Net.Arp
/-!
# Net — a packet on its way down

`ip_send` puts an IP header before a packet and an Ethernet header
before that, and hands the frame to the device. The packet is dropped
where an allocation fails or the next hop is not in the ARP cache; the
request for it is never made. The frames handed to the device are
recorded, oldest first, and the freeing of buffers is left out.
-/

namespace Kos

namespace Net

/-- `struct ip_header`. The checksum and the offset are as the machine
stores them, the other fields in host order. -/
structure IpHeader where
  ihlVersion : UInt8
  tos : UInt8
  totLen : UInt16
  id : UInt16
  fragOff : UInt16
  ttl : UInt8
  protocol : UInt8
  check : UInt16
  saddr : UInt32
  daddr : UInt32
  deriving DecidableEq, Repr

/-- `sizeof(struct ip_header)`. -/
abbrev ipHeaderSize : UInt16 := 20

/-- `sizeof(struct eth_header)`. -/
abbrev ethHeaderSize : UInt16 := 14

/-- The header as it is stored. -/
def IpHeader.bytes (ip : IpHeader) : List UInt8 :=
  [ip.ihlVersion, ip.tos] ++ be16 ip.totLen ++ be16 ip.id ++ le16 ip.fragOff ++
    [ip.ttl, ip.protocol] ++ le16 ip.check ++ be32 ip.saddr ++ be32 ip.daddr

/-- `struct net_device`: its address, and whether it has a `tx`. -/
structure NetDevice where
  mac : Mac
  tx : Bool

/-- The state `ip_send` works on: the statics of its file, the ARP cache,
the device, the answers of the allocator (`0` is `NULL`, and so is an
exhausted list) and the frames passed to `tx` with their lengths. -/
structure Sender where
  localIp : UInt32
  gatewayIp : UInt32
  subnetMask : UInt32
  ipId : UInt16
  arp : ArpTable
  device : Option NetDevice
  mem : List ℕ
  frames : List (List UInt8 × UInt16)

/-- The statics as they are initialised. No function writes to the three
addresses. -/
def Sender.start (arp : ArpTable) (device : Option NetDevice) (mem : List ℕ) : Sender :=
  { localIp := 0xC0A80001, gatewayIp := 0xC0A80000, subnetMask := 0xFFFFFF00, ipId := 0,
    arp := arp, device := device, mem := mem, frames := [] }

/-- `kmalloc`. -/
def Sender.kmalloc (s : Sender) : ℕ × Sender :=
  match s.mem with
  | [] => (0, s)
  | addr :: rest => (addr, { s with mem := rest })

/-- The header `ip_send` builds. -/
def Sender.ipHeader (s : Sender) (dst : UInt32) (proto : UInt8) (totalLen : UInt16) : IpHeader :=
  let ip : IpHeader :=
    { ihlVersion := 0x45, tos := 0, totLen := totalLen, id := s.ipId, fragOff := 0, ttl := 64,
      protocol := proto, check := 0, saddr := s.localIp, daddr := dst }
  { ip with check := ipChecksum ip.bytes }

/-- The address the frame goes to. -/
def Sender.nextHop (s : Sender) (dst : UInt32) : UInt32 :=
  if dst &&& s.subnetMask ≠ s.localIp &&& s.subnetMask then s.gatewayIp else dst

/-- `eth->src`. -/
def Sender.srcMac (s : Sender) : Mac :=
  match s.device with
  | some dev => dev.mac
  | none => fun _ => 0

/-- `dev->tx`, if there is one. -/
def Sender.tx (s : Sender) (frame : List UInt8) (len : UInt16) : Sender :=
  match s.device with
  | some dev => if dev.tx then { s with frames := s.frames ++ [(frame, len)] } else s
  | none => s

/-- `ip_send`. The frame takes `total_len` bytes of the packet, and the
length of it wraps like that of the frame. -/
def ipSend (s : Sender) (dst : UInt32) (proto : UInt8) (data : ℕ → UInt8) (len : UInt16) :
    Sender :=
  let totalLen := ipHeaderSize + len
  let (ip, s) := s.kmalloc
  if ip = 0 then s
  else
    let header := s.ipHeader dst proto totalLen
    let s := { s with ipId := s.ipId + 1 }
    match s.arp.arpLookup (s.nextHop dst) with
    | none => s
    | some dstMac =>
      let (eth, s) := s.kmalloc
      if eth = 0 then s
      else
        let packet := header.bytes ++ Ring.read data 0 len.toNat
        let frame := List.ofFn dstMac ++ List.ofFn s.srcMac ++ be16 ethPIp ++
          packet.take totalLen.toNat
        s.tx frame (ethHeaderSize + totalLen)

/-! ## What is sent -/

variable {s : Sender} {dst : UInt32} {proto : UInt8} {data : ℕ → UInt8} {len : UInt16}

/-- **What `ip_send` needs to send**: two allocations, the next hop in the
ARP cache and a device with `tx`. -/
structure Sender.Ready (s : Sender) (dst : UInt32) : Prop where
  mem : ∃ ip eth rest, s.mem = ip :: eth :: rest ∧ ip ≠ 0 ∧ eth ≠ 0
  arp : ∃ mac, s.arp.arpLookup (s.nextHop dst) = some mac
  device : ∃ dev, s.device = some dev ∧ dev.tx = true

theorem IpHeader.length_bytes (ip : IpHeader) : ip.bytes.length = 20 := rfl

/-- Every step of `ip_send` is taken. -/
theorem ipSend_eq {ip eth : ℕ} {rest : List ℕ} {mac : Mac} {dev : NetDevice}
    (hmem : s.mem = ip :: eth :: rest) (hip : ip ≠ 0) (heth : eth ≠ 0)
    (hmac : s.arp.arpLookup (s.nextHop dst) = some mac) (hdev : s.device = some dev)
    (htx : dev.tx = true) : ipSend s dst proto data len =
      { s with
        ipId := s.ipId + 1, mem := rest,
        frames := s.frames ++ [(List.ofFn mac ++ List.ofFn dev.mac ++ be16 ethPIp ++
          ((s.ipHeader dst proto (ipHeaderSize + len)).bytes ++ Ring.read data 0 len.toNat).take
            (ipHeaderSize + len).toNat, ethHeaderSize + (ipHeaderSize + len))] } := by
  rw [Sender.nextHop] at hmac
  simp only [ipSend, Sender.kmalloc, hmem, if_neg hip, Sender.nextHop, hmac, if_neg heth, Sender.tx,
    Sender.srcMac, hdev, htx, if_true]
  rfl

/-- **The frame of a packet that fits.** -/
theorem frames_ipSend (hready : s.Ready dst) (hfit : 20 + len.toNat < 2 ^ 16) :
    ∃ eth : List UInt8, eth.length = 12 ∧ (ipSend s dst proto data len).frames =
      s.frames ++ [(eth ++ be16 ethPIp ++ (s.ipHeader dst proto (ipHeaderSize + len)).bytes ++
        Ring.read data 0 len.toNat, ethHeaderSize + (ipHeaderSize + len))] := by
  obtain ⟨ip, eth, rest, hmem, hip, heth⟩ := hready.mem
  obtain ⟨mac, hmac⟩ := hready.arp
  obtain ⟨dev, hdev, htx⟩ := hready.device
  refine ⟨List.ofFn mac ++ List.ofFn dev.mac, ?_, ?_⟩
  · rw [List.length_append, List.length_ofFn, List.length_ofFn]
  · have htotal : (ipHeaderSize + len).toNat = 20 + len.toNat := by
      rw [UInt16.toNat_add]
      exact Nat.mod_eq_of_lt hfit
    have htake : ((s.ipHeader dst proto (ipHeaderSize + len)).bytes ++
        Ring.read data 0 len.toNat).take (ipHeaderSize + len).toNat =
        (s.ipHeader dst proto (ipHeaderSize + len)).bytes ++ Ring.read data 0 len.toNat := by
      refine List.take_of_length_le ?_
      rw [List.length_append, IpHeader.length_bytes, Ring.length_read, htotal]
    rw [ipSend_eq hmem hip heth hmac hdev htx, htake, List.append_assoc _ _ (Ring.read ..)]

/-- **Nothing is sent otherwise.** -/
theorem ready_of_frames_ne (hsent : (ipSend s dst proto data len).frames ≠ s.frames) :
    s.Ready dst := by
  -- `ip_send` is followed up to where it drops the packet
  cases hmem : s.mem with
  | nil => exact absurd (by simp only [ipSend, Sender.kmalloc, hmem, if_true]) hsent
  | cons ip rest =>
    by_cases hip : ip = 0
    · exact absurd (by simp only [ipSend, Sender.kmalloc, hmem, hip, if_true]) hsent
    · cases hmac : s.arp.arpLookup (s.nextHop dst) with
      | none =>
        rw [Sender.nextHop] at hmac
        exact absurd (by simp only [ipSend, Sender.kmalloc, hmem, if_neg hip, Sender.nextHop, hmac])
          hsent
      | some mac =>
        have hhop := hmac
        rw [Sender.nextHop] at hhop
        cases hrest : rest with
        | nil =>
          exact absurd (by simp only [ipSend, Sender.kmalloc, hmem, if_neg hip, Sender.nextHop, hhop,
            hrest, if_true]) hsent
        | cons eth rest =>
          by_cases heth : eth = 0
          · exact absurd (by simp only [ipSend, Sender.kmalloc, hmem, if_neg hip, Sender.nextHop,
              hhop, hrest, heth, if_true]) hsent
          · refine ⟨⟨ip, eth, rest, by rw [hmem, hrest], hip, heth⟩, ⟨mac, hmac⟩, ?_⟩
            cases hdev : s.device with
            | none =>
              exact absurd (by simp only [ipSend, Sender.kmalloc, hmem, if_neg hip, Sender.nextHop,
                hhop, hrest, if_neg heth, Sender.tx, hdev]) hsent
            | some dev =>
              refine ⟨dev, rfl, ?_⟩
              by_contra htx
              exact hsent (by simp only [ipSend, Sender.kmalloc, hmem, if_neg hip, Sender.nextHop,
                hhop, hrest, if_neg heth, Sender.tx, hdev, if_neg htx])

end Net

end Kos
