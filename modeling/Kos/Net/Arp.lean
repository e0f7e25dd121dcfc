import Kos.Common.Registry
import Kos.Common.Run
import Kos.Net.Model
import Mathlib.Data.List.OfFn
/-!
# Net — the ARP cache

Two parallel arrays of 256 entries and a count. A reply writes to the
entry of its address, or to the next one if there is none; when the
cache is full, new addresses are dropped. So the cache knows the first
256 addresses that were ever heard of, each with the last it was told.
Frames of every kind come in, and no other than an ARP reply changes it.
-/

namespace Kos

namespace Net

/-- A hardware address. -/
abbrev Mac := Fin 6 → UInt8

/-- `arp_cache_ip`, `arp_cache` and `arp_cache_count`. -/
structure ArpTable where
  ip : ℕ → UInt32
  mac : ℕ → Mac
  count : ℕ

/-- The fields of `struct arp_packet` that are read, in host order. -/
structure ArpPacket where
  opcode : UInt16
  senderMac : Mac
  senderIp : UInt32
  targetIp : UInt32

/-- `ARP_OP_REQUEST`. -/
abbrev arpOpRequest : UInt16 := 1

/-- `ARP_OP_REPLY`. -/
abbrev arpOpReply : UInt16 := 2

namespace ArpTable

/-- `arp_init`. -/
def arpInit : ArpTable := ⟨fun _ => 0, fun _ _ => 0, 0⟩

/-- The search of `arp_lookup` and `arp_add`: the first entry of an
address. -/
def find (t : ArpTable) (ip : UInt32) : Option ℕ :=
  (List.range t.count).find? fun i => t.ip i = ip

/-- `arp_lookup`. -/
def arpLookup (t : ArpTable) (ip : UInt32) : Option Mac := (t.find ip).map t.mac

/-- `arp_add`. -/
def arpAdd (t : ArpTable) (ip : UInt32) (mac : Mac) : ArpTable :=
  match t.find ip with
  | some i => { t with mac := Function.update t.mac i mac }
  | none =>
    if t.count < 256 then
      ⟨Function.update t.ip t.count ip, Function.update t.mac t.count mac, t.count + 1⟩
    else t

/-- `arp_rx`. A request is looked at and not answered. -/
def arpRx (t : ArpTable) (arp : ArpPacket) : ArpTable :=
  if arp.opcode = arpOpRequest then t
  else if arp.opcode = arpOpReply then t.arpAdd arp.senderIp arp.senderMac
  else t

end ArpTable

/-- The replies among packets: an address, and the hardware address it
was told to have. -/
def replies (packets : List ArpPacket) : List (UInt32 × Mac) :=
  (packets.filter fun arp => arp.opcode = arpOpReply).map fun arp => (arp.senderIp, arp.senderMac)

variable {t : ArpTable} {ip : UInt32} {mac : Mac} {h : List (UInt32 × Mac)} {i : ℕ}

/-! ## The search -/

theorem ArpTable.find_some (hi : t.find ip = some i) : i < t.count ∧ t.ip i = ip := by
  refine ⟨List.mem_range.mp (List.mem_of_find?_eq_some hi), ?_⟩
  simpa using List.find?_some hi

theorem ArpTable.find_none (hnone : t.find ip = none) (hi : i < t.count) : t.ip i ≠ ip := by
  have := List.find?_eq_none.mp hnone i (List.mem_range.mpr hi)
  simpa using this

/-- The addresses that are cached. -/
def ArpTable.ips (t : ArpTable) : List UInt32 := (List.range t.count).map t.ip

theorem ArpTable.length_ips (t : ArpTable) : t.ips.length = t.count := by
  rw [ArpTable.ips, List.length_map, List.length_range]

theorem ArpTable.mem_ips : ip ∈ t.ips ↔ ∃ i < t.count, t.ip i = ip := by
  simp [ArpTable.ips]

/-- Entries of different places have different addresses. -/
theorem ArpTable.ip_inj (hnodup : t.ips.Nodup) {j : ℕ} (hi : i < t.count) (hj : j < t.count)
    (heq : t.ip i = t.ip j) : i = j :=
  List.inj_on_of_nodup_map hnodup (List.mem_range.mpr hi) (List.mem_range.mpr hj) heq

/-! ## The invariant -/

/-- **What the cache holds of a history**: the first 256 addresses, and
for each what it was told last. -/
structure ArpTable.Holds (h : List (UInt32 × Mac)) (t : ArpTable) : Prop where
  ips : t.ips = (Registry.keys h).take 256
  macs : ∀ i < t.count, Registry.latest h (t.ip i) = some (t.mac i)

theorem ArpTable.Holds.nodup (hold : t.Holds h) : t.ips.Nodup := by
  rw [hold.ips]
  exact (Registry.nodup_keys h).sublist (List.take_sublist ..)

theorem ArpTable.holds_init : ArpTable.arpInit.Holds [] :=
  ⟨rfl, fun i hi => absurd hi (Nat.not_lt_zero i)⟩

/-- An address that is cached is told something else. -/
theorem ArpTable.Holds.add_some (hold : t.Holds h) (hi : t.find ip = some i) :
    (t.arpAdd ip mac).Holds (h ++ [(ip, mac)]) := by
  obtain ⟨hlt, hip⟩ := ArpTable.find_some hi
  have hin : ip ∈ (Registry.keys h).take 256 := by
    rw [← hold.ips]
    exact ArpTable.mem_ips.mpr ⟨i, hlt, hip⟩
  have hadd : t.arpAdd ip mac = { t with mac := Function.update t.mac i mac } := by
    rw [ArpTable.arpAdd, hi]
  rw [hadd]
  refine ⟨?_, fun j hj => ?_⟩
  · rw [Registry.take_keys_concat, if_pos hin]
    exact hold.ips
  · rw [Registry.latest_concat]
    by_cases hji : j = i
    · subst hji
      rw [if_pos hip.symm]
      simp only [Function.update_self]
    · have hne : ip ≠ t.ip j := fun hc =>
        hji (ArpTable.ip_inj hold.nodup hj hlt (hc.symm.trans hip.symm))
      rw [if_neg hne]
      simp only [Function.update_of_ne hji]
      exact hold.macs j hj

/-- An address that is not cached gets the next entry, if there is one. -/
theorem ArpTable.Holds.add_none (hold : t.Holds h) (hnone : t.find ip = none) :
    (t.arpAdd ip mac).Holds (h ++ [(ip, mac)]) := by
  have hout : ip ∉ (Registry.keys h).take 256 := by
    rw [← hold.ips, ArpTable.mem_ips]
    rintro ⟨i, hi, hip⟩
    exact ArpTable.find_none hnone hi hip
  have hlen : ((Registry.keys h).take 256).length = t.count := by
    rw [← hold.ips, ArpTable.length_ips]
  have hkeep : ∀ i < t.count, Registry.latest (h ++ [(ip, mac)]) (t.ip i) = some (t.mac i) := by
    intro i hi
    rw [Registry.latest_concat, if_neg (ArpTable.find_none hnone hi).symm]
    exact hold.macs i hi
  have hkeys : (Registry.keys (h ++ [(ip, mac)])).take 256 =
      if t.count < 256 then t.ips ++ [ip] else t.ips := by
    rw [Registry.take_keys_concat, if_neg hout, hlen, hold.ips]
  by_cases hroom : t.count < 256
  · have hadd : t.arpAdd ip mac =
        ⟨Function.update t.ip t.count ip, Function.update t.mac t.count mac, t.count + 1⟩ := by
      rw [ArpTable.arpAdd, hnone]
      exact if_pos hroom
    rw [hadd]
    have hold_ip : ∀ i < t.count, Function.update t.ip t.count ip i = t.ip i := fun i hi =>
      Function.update_of_ne hi.ne ..
    refine ⟨?_, fun i hi => ?_⟩
    · rw [hkeys, if_pos hroom]
      change (List.range (t.count + 1)).map (Function.update t.ip t.count ip) = _
      rw [List.range_succ, List.map_append, List.map_singleton, Function.update_self, ArpTable.ips]
      congr 1
      exact List.map_congr_left fun i hi => hold_ip i (List.mem_range.mp hi)
    · change i < t.count + 1 at hi
      rcases Nat.lt_succ_iff_lt_or_eq.mp hi with hlt | rfl
      · simp only [hold_ip i hlt, Function.update_of_ne hlt.ne]
        exact hkeep i hlt
      · simp only [Function.update_self]
        rw [Registry.latest_concat, if_pos rfl]
  · have hadd : t.arpAdd ip mac = t := by
      rw [ArpTable.arpAdd, hnone]
      exact if_neg hroom
    rw [hadd]
    exact ⟨by rw [hkeys, if_neg hroom], hkeep⟩

/-- **A packet keeps the invariant.** -/
theorem ArpTable.Holds.step {packets : List ArpPacket} (hold : t.Holds (replies packets))
    (arp : ArpPacket) : (t.arpRx arp).Holds (replies (packets ++ [arp])) := by
  have hreplies : replies (packets ++ [arp]) = replies packets ++
      if arp.opcode = arpOpReply then [(arp.senderIp, arp.senderMac)] else [] := by
    rw [replies, List.filter_append, List.map_append, replies]
    by_cases hop : arp.opcode = arpOpReply
    · simp [hop]
    · simp [hop]
  rw [hreplies, ArpTable.arpRx]
  by_cases hop : arp.opcode = arpOpReply
  · have hreq : arp.opcode ≠ arpOpRequest := by rw [hop]; decide
    rw [if_neg hreq, if_pos hop, if_pos hop]
    cases hfind : t.find arp.senderIp with
    | some i => exact hold.add_some hfind
    | none => exact hold.add_none hfind
  · rw [if_neg hop, if_neg hop, List.append_nil, ite_self]
    exact hold

/-- What the cache answers when it holds a history. -/
theorem ArpTable.Holds.lookup (hold : t.Holds h) (hin : ip ∈ (Registry.keys h).take 256) :
    ∃ mac, Registry.latest h ip = some mac ∧ t.arpLookup ip = some mac := by
  rw [← hold.ips, ArpTable.mem_ips] at hin
  obtain ⟨j, hj, hip⟩ := hin
  obtain ⟨i, hi⟩ : ∃ i, t.find ip = some i := by
    cases hfind : t.find ip with
    | some i => exact ⟨i, rfl⟩
    | none => exact absurd hip (ArpTable.find_none hfind hj)
  obtain ⟨hlt, rfl⟩ := ArpTable.find_some hi
  refine ⟨t.mac i, hold.macs i hlt, ?_⟩
  rw [ArpTable.arpLookup, hi, Option.map_some]

theorem ArpTable.Holds.lookup_none (hold : t.Holds h) (hout : ip ∉ (Registry.keys h).take 256) :
    t.arpLookup ip = none := by
  rw [← hold.ips, ArpTable.mem_ips] at hout
  cases hfind : t.find ip with
  | some i => exact absurd ⟨i, ArpTable.find_some hfind⟩ hout
  | none => rw [ArpTable.arpLookup, hfind, Option.map_none]

/-- The invariant holds after all packets. -/
theorem ArpTable.holds_run (packets : List ArpPacket) :
    (runFrom ArpTable.arpRx .arpInit packets).Holds (replies packets) :=
  foldl_history (P := fun d t => ArpTable.Holds (replies d) t) (d := [])
    (fun _ a _ _ _ hold => hold.step a) ArpTable.holds_init

/-- **The cache is a map of the first 256 addresses.** After any packets,
an address among the first 256 that were replied for has what its latest
reply said, every other one has nothing; the cached addresses are
distinct, and there are at most 256. -/
theorem arpLookup_eq_latest (packets : List ArpPacket) :
    let t := runFrom ArpTable.arpRx .arpInit packets
    let known := (Registry.keys (replies packets)).take 256
    (∀ ip ∈ known, ∃ mac, Registry.latest (replies packets) ip = some mac ∧
      t.arpLookup ip = some mac) ∧
    (∀ ip ∉ known, t.arpLookup ip = none) ∧
    (∀ i j, i < t.count → j < t.count → t.ip i = t.ip j → i = j) ∧
    t.count ≤ 256 := by
  intro t known
  have hold : t.Holds (replies packets) := ArpTable.holds_run packets
  refine ⟨fun ip hin => hold.lookup hin, fun ip hout => hold.lookup_none hout,
    fun i j hi hj heq => ArpTable.ip_inj hold.nodup hi hj heq, ?_⟩
  rw [← t.length_ips, hold.ips, List.length_take]
  exact Nat.min_le_left ..

/-! ## The cache of the frames

The model of a frame on its way up keeps the cache as a list of pairs.
It is this table, read in order. -/

/-- The entries of the table, in order. -/
def ArpTable.entries (t : ArpTable) : List (UInt32 × List UInt8) :=
  (List.range t.count).map fun i => (t.ip i, List.ofFn (t.mac i))

theorem ArpTable.length_entries (t : ArpTable) : t.entries.length = t.count := by
  rw [ArpTable.entries, List.length_map, List.length_range]

/-- The packet at a position of a frame. -/
def ArpPacket.at (mem : ℕ → UInt8) (pos : ℕ) : ArpPacket :=
  { opcode := field16 mem (pos + 6), senderMac := fun i => mem (pos + 8 + i),
    senderIp := field32 mem (pos + 14), targetIp := field32 mem (pos + 24) }

theorem arpReplace_none {cache : List (UInt32 × List UInt8)} {bytes : List UInt8}
    (hnone : ∀ e ∈ cache, e.1 ≠ ip) : arpReplace ip bytes cache = none := by
  induction cache with
  | nil => rfl
  | cons e cache ih =>
    rw [arpReplace, if_neg (hnone e List.mem_cons_self),
      ih fun e he => hnone e (List.mem_cons_of_mem _ he), Option.map_none]

/-- The first entry of an address is replaced. -/
theorem arpReplace_append {front back : List (UInt32 × List UInt8)} {e : UInt32 × List UInt8}
    {bytes : List UInt8} (hfront : ∀ e ∈ front, e.1 ≠ ip) (he : e.1 = ip) :
    arpReplace ip bytes (front ++ e :: back) = some (front ++ (ip, bytes) :: back) := by
  induction front with
  | nil => rw [List.nil_append, arpReplace, if_pos he, List.nil_append]
  | cons f front ih =>
    rw [List.cons_append, arpReplace, if_neg (hfront f List.mem_cons_self),
      ih fun e he => hfront e (List.mem_cons_of_mem _ he), Option.map_some, List.cons_append]

/-- A reply to an address that is cached, in both models. -/
theorem ArpTable.entries_add_some (hi : t.find ip = some i) :
    Net.arpAdd t.entries ip (List.ofFn mac) = (t.arpAdd ip mac).entries := by
  obtain ⟨-, front, back, hsplit, hfront⟩ := List.find?_eq_some_iff_append.mp hi
  have hip := (ArpTable.find_some hi).2
  have hnodup : (front ++ i :: back).Nodup := hsplit ▸ List.nodup_range
  have hrest : i ∉ front ++ back := (List.nodup_cons.mp (List.nodup_middle.mp hnodup)).1
  have hsame : ∀ j ∈ front ++ back, Function.update t.mac i mac j = t.mac j := fun j hj =>
    Function.update_of_ne (ne_of_mem_of_not_mem hj hrest) ..
  have hentries : ∀ t' : ArpTable, t'.count = t.count → t'.entries =
      front.map (fun j => (t'.ip j, List.ofFn (t'.mac j))) ++
        (t'.ip i, List.ofFn (t'.mac i)) ::
          back.map (fun j => (t'.ip j, List.ofFn (t'.mac j))) := by
    intro t' hcount
    rw [ArpTable.entries, hcount, hsplit, List.map_append, List.map_cons]
  have hadd : t.arpAdd ip mac = { t with mac := Function.update t.mac i mac } := by
    rw [ArpTable.arpAdd, hi]
  have hreplace : arpReplace ip (List.ofFn mac) t.entries = some
      (front.map (fun j => (t.ip j, List.ofFn (t.mac j))) ++
        (ip, List.ofFn mac) :: back.map (fun j => (t.ip j, List.ofFn (t.mac j)))) := by
    rw [hentries t rfl]
    refine arpReplace_append (fun e he => ?_) hip
    obtain ⟨j, hj, rfl⟩ := List.mem_map.mp he
    simpa using hfront j hj
  have hfrontSame : front.map (fun j => (t.ip j, List.ofFn (Function.update t.mac i mac j))) =
      front.map (fun j => (t.ip j, List.ofFn (t.mac j))) :=
    List.map_congr_left fun j hj => by rw [hsame j (List.mem_append_left _ hj)]
  have hbackSame : back.map (fun j => (t.ip j, List.ofFn (Function.update t.mac i mac j))) =
      back.map (fun j => (t.ip j, List.ofFn (t.mac j))) :=
    List.map_congr_left fun j hj => by rw [hsame j (List.mem_append_right _ hj)]
  have hnew := hentries { t with mac := Function.update t.mac i mac } rfl
  simp only [hfrontSame, hbackSame, Function.update_self, hip] at hnew
  rw [Net.arpAdd, hreplace, hadd, hnew]

/-- A reply to an address that is not cached, in both models. -/
theorem ArpTable.entries_add_none (hnone : t.find ip = none) :
    Net.arpAdd t.entries ip (List.ofFn mac) = (t.arpAdd ip mac).entries := by
  have hreplace : arpReplace ip (List.ofFn mac) t.entries = none := by
    refine arpReplace_none fun e he => ?_
    obtain ⟨j, hj, rfl⟩ := List.mem_map.mp he
    exact ArpTable.find_none hnone (List.mem_range.mp hj)
  rw [Net.arpAdd, hreplace, t.length_entries, ArpTable.arpAdd, hnone]
  by_cases hroom : t.count < 256
  · simp only [if_pos hroom]
    change _ = (List.range (t.count + 1)).map fun i => (Function.update t.ip t.count ip i,
      List.ofFn (Function.update t.mac t.count mac i))
    rw [List.range_succ, List.map_append, List.map_singleton, Function.update_self,
      Function.update_self, ArpTable.entries]
    congr 1
    refine List.map_congr_left fun j hj => ?_
    have hne := (List.mem_range.mp hj).ne
    rw [Function.update_of_ne hne, Function.update_of_ne hne]
  · simp only [if_neg hroom]

theorem ArpTable.entries_arpAdd (t : ArpTable) (ip : UInt32) (mac : Mac) :
    Net.arpAdd t.entries ip (List.ofFn mac) = (t.arpAdd ip mac).entries := by
  cases hfind : t.find ip with
  | some i => exact ArpTable.entries_add_some hfind
  | none => exact ArpTable.entries_add_none hfind

/-- What `arp_rx` does to the list. -/
theorem arpRx_arpCache (host : Host) (pos : ℕ) :
    (arpRx host pos).arpCache =
      if field16 host.mem (pos + 6) = 1 then host.arpCache
      else if field16 host.mem (pos + 6) = 2 then
        arpAdd host.arpCache (field32 host.mem (pos + 14)) (Ring.read host.mem (pos + 8) 6)
      else host.arpCache := by
  by_cases hreq : field16 host.mem (pos + 6) = 1
  · rw [if_pos hreq]
    exact (congrArg Host.arpCache (if_pos hreq)).trans rfl
  · rw [if_neg hreq]
    refine (congrArg Host.arpCache (if_neg hreq)).trans ?_
    by_cases hrep : field16 host.mem (pos + 6) = 2
    · rw [if_pos hrep]
      exact (congrArg Host.arpCache (if_pos hrep)).trans rfl
    · rw [if_neg hrep]
      exact (congrArg Host.arpCache (if_neg hrep)).trans rfl

/-- **The cache of the frames is the table**: what `arp_rx` does to the
list, reading the frame, is what it does to the table. -/
theorem arpRx_entries {host : Host} (hcache : host.arpCache = t.entries) (pos : ℕ) :
    (arpRx host pos).arpCache = (t.arpRx (ArpPacket.at host.mem pos)).entries := by
  have hmac : Ring.read host.mem (pos + 8) 6 =
      List.ofFn (ArpPacket.at host.mem pos).senderMac := rfl
  have htable : t.arpRx (ArpPacket.at host.mem pos) =
      if field16 host.mem (pos + 6) = 1 then t
      else if field16 host.mem (pos + 6) = 2 then
        t.arpAdd (field32 host.mem (pos + 14)) (ArpPacket.at host.mem pos).senderMac
      else t := rfl
  rw [arpRx_arpCache, htable, hcache]
  split
  · rfl
  · split
    · rw [hmac, ArpTable.entries_arpAdd]
    · rfl

/-! ## What a host has heard

Frames of every kind come in. Those that carry an ARP reply change the
cache, and no others do. -/

/-- A frame: the memory from its first byte on, and its length. -/
abbrev Frame : Type := (ℕ → UInt8) × UInt16

/-- A frame is handed to `network_rx`. -/
def Host.receive (h : Host) (f : Frame) : Host := networkRx { h with mem := f.1 } f.2

/-- The ARP packets among frames. -/
def heard (frames : List Frame) : List ArpPacket :=
  (frames.filter fun f => 14 ≤ f.2 ∧ field16 f.1 12 = ethPArp).map fun f => .at f.1 14

/-- `arp_lookup`, on the list. -/
def arpLookup (cache : List (UInt32 × List UInt8)) (ip : UInt32) : Option (List UInt8) :=
  (cache.find? fun e => e.1 = ip).map Prod.snd

theorem ArpTable.arpLookup_entries (t : ArpTable) (ip : UInt32) :
    Net.arpLookup t.entries ip = (t.arpLookup ip).map List.ofFn := by
  rw [Net.arpLookup, ArpTable.entries, List.find?_map, Option.map_map, ArpTable.arpLookup,
    Option.map_map]
  rfl

theorem icmpRx_arpCache (h : Host) (ip icmp data : ℕ) (len : UInt16) :
    (icmpRx h ip icmp data len).arpCache = h.arpCache := by
  unfold icmpRx
  dsimp only
  split <;> rfl

theorem tcpRx_arpCache (h : Host) (tcp payload : ℕ) (len : UInt16) :
    (tcpRx h tcp payload len).arpCache = h.arpCache := by
  unfold tcpRx
  dsimp only
  split <;> rfl

/-- No handler of an IP packet writes to the cache. -/
theorem ipRx_arpCache (h : Host) (ip : ℕ) : (ipRx h ip).arpCache = h.arpCache := by
  have hdispatch : ∀ (h : Host) ihl, (ipDispatch h ip ihl).arpCache = h.arpCache := by
    intro h ihl
    unfold ipDispatch Host.passTo
    dsimp only
    split
    · exact icmpRx_arpCache ..
    · split
      · exact tcpRx_arpCache ..
      · split <;> rfl
  unfold ipRx
  dsimp only
  split
  · rfl
  · split
    · rfl
    · split
      · rfl
      · exact hdispatch _ _

/-- Only ARP packets do. -/
theorem networkRx_arpCache (h : Host) (len : UInt16) :
    (networkRx h len).arpCache =
      if 14 ≤ len ∧ field16 h.mem 12 = ethPArp then (arpRx (h.touch 12 2) 14).arpCache
      else h.arpCache := by
  have hmem : (h.touch 12 2).mem = h.mem := rfl
  unfold networkRx
  dsimp only
  rw [hmem]
  by_cases hlen : len < 14
  · rw [if_pos hlen, if_neg fun hc => UInt16.not_le.2 hlen hc.1]
  · rw [if_neg hlen]
    by_cases hip : field16 h.mem 12 = ethPIp
    · have hout : ¬ (14 ≤ len ∧ field16 h.mem 12 = ethPArp) := fun hc =>
        absurd (hip.symm.trans hc.2) (by decide)
      rw [if_pos hip, if_neg hout, ipRx_arpCache]
      rfl
    · rw [if_neg hip]
      by_cases harp : field16 h.mem 12 = ethPArp
      · rw [if_pos harp, if_pos ⟨UInt16.not_lt.1 hlen, harp⟩]
      · rw [if_neg harp, if_neg fun hc => harp hc.2]
        rfl

/-- **One frame**, on the list and on the table. -/
theorem Host.receive_arpCache {h : Host} (hcache : h.arpCache = t.entries) (f : Frame) :
    (h.receive f).arpCache = (runFrom ArpTable.arpRx t (heard [f])).entries := by
  rw [Host.receive, networkRx_arpCache, heard, List.filter_singleton]
  by_cases hin : 14 ≤ f.2 ∧ field16 f.1 12 = ethPArp
  · have hhost : (({ h with mem := f.1 } : Host).touch 12 2).arpCache = t.entries := hcache
    rw [if_pos hin, decide_eq_true hin]
    exact arpRx_entries hhost 14
  · rw [if_neg hin, decide_eq_false hin]
    exact hcache

/-- **Frames one after another.** -/
theorem Host.run_arpCache {h : Host} (hcache : h.arpCache = t.entries) (frames : List Frame) :
    (runFrom Host.receive h frames).arpCache =
      (runFrom ArpTable.arpRx t (heard frames)).entries := by
  induction frames generalizing h t with
  | nil => exact hcache
  | cons f frames ih =>
    have hsplit : heard (f :: frames) = heard [f] ++ heard frames := by
      rw [heard, ← List.singleton_append, List.filter_append, List.map_append, heard, heard]
    rw [runFrom_cons, hsplit, runFrom_append]
    exact ih (Host.receive_arpCache hcache f)

/-- **A host knows whom it has heard.** After any frames, of any content
and any length, `arp_lookup` finds for an address what the last ARP reply
among them said, if the address is one of the first 256 replied for, and
nothing for any other; there is one entry for each address, and no more
than 256 of them. -/
theorem lookup_heard (mem : ℕ → UInt8) (localIp : UInt32) (tcp : Tcp.Stack)
    (frames : List Frame) :
    let h := runFrom Host.receive (Host.start mem localIp [] tcp) frames
    let told := replies (heard frames)
    let known := (Registry.keys told).take 256
    (∀ ip ∈ known, ∃ mac, Registry.latest told ip = some mac ∧
      arpLookup h.arpCache ip = some (List.ofFn mac)) ∧
    (∀ ip ∉ known, arpLookup h.arpCache ip = none) ∧
    h.arpCache.map Prod.fst = known ∧ known.Nodup := by
  intro h told known
  have hcache : h.arpCache = (runFrom ArpTable.arpRx .arpInit (heard frames)).entries :=
    Host.run_arpCache rfl frames
  have hold := ArpTable.holds_run (heard frames)
  rw [hcache]
  refine ⟨fun ip hin => ?_, fun ip hout => ?_, ?_, ?_⟩
  · obtain ⟨mac, hlatest, hlookup⟩ := hold.lookup hin
    exact ⟨mac, hlatest, by rw [ArpTable.arpLookup_entries, hlookup, Option.map_some]⟩
  · rw [ArpTable.arpLookup_entries, hold.lookup_none hout, Option.map_none]
  · rw [ArpTable.entries, List.map_map]
    exact hold.ips
  · have hnodup := hold.nodup
    rwa [hold.ips] at hnodup

end Net

end Kos
