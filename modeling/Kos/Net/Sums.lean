import Kos.Common.OnesComplement
import Kos.Net.Datagram
import Kos.Net.Segment
/-!
# Net — three codes for one checksum

`ip_checksum` walks over a block two bytes at a time, `tcp_checksum`
counts words in three loops, and `icmp_echo_reply` has the loop inline.
They add the same words in the same order, so they compute one function:
the complement of the ones' complement sum of the words. The sum of a
block that fits a frame does not overflow 32 bits, and the folding of
the carries ends for every sum.
-/

namespace Kos

namespace Net

variable {mem : ℕ → UInt8} {p n : ℕ} {sum : UInt32}

/-- The first loop of `ip_checksum`: `while (len > 1)`, and the odd byte. -/
def ipSumLoop (mem : ℕ → UInt8) : ℕ → ℕ → UInt32 → UInt32
  | _, 0, sum => sum
  | p, 1, sum => sum + (mem p).toUInt32
  | p, len + 2, sum => ipSumLoop mem (p + 2) len (sum + (word16 (mem p) (mem (p + 1))).toUInt32)

/-- `ip_checksum`, loop by loop. -/
def ipChecksumLoop (mem : ℕ → UInt8) (data : ℕ) (len : UInt32) : UInt16 :=
  (~~~ foldLoop (ipSumLoop mem data len.toNat 0)).toUInt16

/-- `tcp_checksum`, loop by loop. -/
def tcpChecksumLoop (src dst : UInt32) (tcp : Tcp.TcpHeader) (data : ℕ → UInt8) (len : UInt16) :
    UInt16 :=
  let pseudo := pseudoHeader src dst (Tcp.tcpHeaderSize + len)
  let sum := addWords (fun i => pseudo.getD i 0) 0 (12 / 2) 0
  let sum := addWords (fun i => tcp.bytes.getD i 0) 0 (20 / 2) sum
  let sum := addWords data 0 (len / 2).toNat sum
  let sum := if len &&& 1 ≠ 0 then sum + (data (len.toNat - 1)).toUInt32 else sum
  (~~~ foldLoop sum).toUInt16

/-! ## The loops add the words of a block -/

theorem read_succ_succ (mem : ℕ → UInt8) (p n : ℕ) :
    Ring.read mem p (n + 2) = mem p :: mem (p + 1) :: Ring.read mem (p + 2) n := by
  rw [Nat.add_comm n 2, Ring.read_add]
  rfl

theorem addWords_eq (mem : ℕ → UInt8) (p n : ℕ) (sum : UInt32) :
    addWords mem p n sum = sumWords sum (Ring.read mem p (2 * n)) := by
  induction n generalizing p sum with
  | zero => rfl
  | succ n ih =>
    rw [addWords, ih, Nat.mul_add, read_succ_succ, sumWords]

/-- The words, and then the byte that is left. -/
theorem addWords_odd (mem : ℕ → UInt8) (p n : ℕ) (sum : UInt32) :
    addWords mem p n sum + (mem (p + 2 * n)).toUInt32 =
      sumWords sum (Ring.read mem p (2 * n + 1)) := by
  rw [Ring.read_add, sumWords_append _ (by rw [Ring.length_read]; exact even_two_mul n),
    ← addWords_eq]
  rfl

/-- The halves of a length, and whether a byte is left over. -/
theorem toNat_half (len : UInt16) : (len / 2).toNat = len.toNat / 2 ∧
    (len &&& 1 ≠ 0 ↔ len.toNat % 2 = 1) := by
  refine ⟨UInt16.toNat_div .., ?_⟩
  have hand : (len &&& 1).toNat = len.toNat % 2 := by
    rw [UInt16.toNat_and]
    exact Nat.and_one_is_mod len.toNat
  rw [ne_eq, ← UInt16.toNat_inj, hand, show (0 : UInt16).toNat = 0 from rfl]
  omega

/-- **Counting words and a byte left over is walking over the bytes.** -/
theorem addWords_half (mem : ℕ → UInt8) (len : UInt16) (sum : UInt32) :
    (if len &&& 1 ≠ 0 then
        addWords mem 0 (len / 2).toNat sum + (mem (2 * (len / 2).toNat)).toUInt32
      else addWords mem 0 (len / 2).toNat sum) = sumWords sum (Ring.read mem 0 len.toNat) := by
  obtain ⟨hhalf, hodd⟩ := toNat_half len
  rw [hhalf]
  split
  · rename_i h
    have hlen : len.toNat = 2 * (len.toNat / 2) + 1 := by
      have := hodd.1 h
      omega
    have hsum := addWords_odd mem 0 (len.toNat / 2) sum
    rw [Nat.zero_add, ← hlen] at hsum
    exact hsum
  · rename_i h
    have hlen : len.toNat = 2 * (len.toNat / 2) := by
      have : ¬ len.toNat % 2 = 1 := fun hc => h (hodd.2 hc)
      omega
    rw [addWords_eq, ← hlen]

theorem ipSumLoop_eq (mem : ℕ → UInt8) : ∀ (p len : ℕ) (sum : UInt32),
    ipSumLoop mem p len sum = sumWords sum (Ring.read mem p len)
  | _, 0, _ => rfl
  | _, 1, _ => rfl
  | p, len + 2, sum => by
    rw [ipSumLoop, ipSumLoop_eq mem (p + 2) len, read_succ_succ, sumWords]

/-! ## Folding the carries -/

/-- **The loop that folds the carries ends**, in the word that stands for
the sum. -/
theorem toNat_foldLoop (s : UInt32) :
    (foldLoop s).toNat = OnesComplement.reduce 65536 s.toNat := by
  have hstands : OnesComplement.Stands 65536 (foldLoop s).toNat s.toNat ∧
      (foldLoop s).toNat < 65536 := by
    fun_induction foldLoop s with
    | case1 s h => exact ⟨OnesComplement.Stands.refl _ _, (shiftRight_eq_zero_iff s).1 h⟩
    | case2 s h ih =>
      rw [toNat_carry] at ih
      exact ⟨ih.1.trans (OnesComplement.stands_carry (by decide) s.toNat), ih.2⟩
  exact hstands.1.eq_reduce (by decide) hstands.2

/-- Two rounds are enough. -/
theorem foldLoop_eq (s : UInt32) : foldLoop s = foldSum s := by
  have hstands : OnesComplement.Stands 65536 (foldSum s).toNat s.toNat := by
    refine ⟨foldSum_modEq s, fun hz => ?_, fun hz => ?_⟩
    · by_contra hne
      exact (foldSum_pos (Nat.pos_of_ne_zero hne)).ne' hz
    · rw [UInt32.toNat_inj.1 (hz.trans (show (0 : UInt32).toNat = 0 from rfl).symm)]
      rfl
  rw [← UInt32.toNat_inj, toNat_foldLoop, ← hstands.eq_reduce (by decide) (foldSum_lt s)]

/-- **`ip_checksum` is the complement of the folded sum.** -/
theorem ipChecksumLoop_eq (mem : ℕ → UInt8) (data : ℕ) (len : UInt32) :
    ipChecksumLoop mem data len = ipChecksum (Ring.read mem data len.toNat) := by
  rw [ipChecksumLoop, foldLoop_eq, ipSumLoop_eq]
  rfl

/-! ## The sum of the words -/

/-- The words of a block in little-endian order, an odd last byte filled
up with zero. -/
def littleWords : List UInt8 → List ℕ
  | [] => []
  | [b] => [b.toNat]
  | lo :: hi :: rest => (lo.toNat + 256 * hi.toNat) :: littleWords rest

theorem littleWords_lt : ∀ {bytes : List UInt8}, ∀ w ∈ littleWords bytes, w < 65536
  | [], w, hw => absurd hw List.not_mem_nil
  | [b], w, hw => by
    rw [List.mem_singleton.1 hw]
    exact b.toNat_lt.trans (by decide)
  | lo :: hi :: rest, w, hw => by
    rcases List.mem_cons.1 hw with rfl | hw
    · have hlo := lo.toNat_lt
      have hhi := hi.toNat_lt
      omega
    · exact littleWords_lt w hw

theorem sum_littleWords : ∀ bytes : List UInt8, (littleWords bytes).sum = wordSum bytes
  | [] => rfl
  | [b] => rfl
  | lo :: hi :: rest => by
    rw [littleWords, List.sum_cons, sum_littleWords rest, wordSum, toNat_word16,
      show 2 ^ 8 = 256 from rfl]

/-- A block that fits a frame, header and all, does not overflow. -/
theorem toNat_sumWords_zero {bytes : List UInt8} (h : bytes.length ≤ 2 ^ 17 - 3) :
    (sumWords 0 bytes).toNat = wordSum bytes := by
  have hle := wordSum_le bytes
  rw [toNat_sumWords, show (0 : UInt32).toNat = 0 from rfl, Nat.zero_add]
  rw [show (0 : UInt32).toNat = 0 from rfl]
  omega

/-- **The complement of a folded sum is that of the ones' complement
sum.** -/
theorem toNat_ipChecksum {bytes : List UInt8} (h : bytes.length ≤ 2 ^ 17 - 3) :
    (ipChecksum bytes).toNat = 65535 - OnesComplement.sum 65536 (littleWords bytes) := by
  rw [ipChecksum, toNat_complement, OnesComplement.sum_eq_reduce (by decide) littleWords_lt,
    sum_littleWords, ← foldLoop_eq, toNat_foldLoop, toNat_sumWords_zero h]

/-! ## The three codes -/

theorem length_summed (src dst : UInt32) (tcp : Tcp.TcpHeader) (data : ℕ → UInt8) (len : UInt16) :
    (summed src dst tcp data len).length = 32 + len.toNat := by
  rw [summed, List.length_append, List.length_append, Ring.length_read]
  change 12 + (20 + len.toNat) = _
  omega

/-- **`tcp_checksum` adds up pseudo header, header and data.** -/
theorem tcpChecksumLoop_eq (src dst : UInt32) (tcp : Tcp.TcpHeader) (data : ℕ → UInt8)
    (len : UInt16) : tcpChecksumLoop src dst tcp data len = Tcp.tcpChecksum src dst tcp data len := by
  -- the last byte of an odd block is the one after its words
  have hlast : len &&& 1 ≠ 0 → len.toNat - 1 = 2 * (len / 2).toNat := by
    intro h
    obtain ⟨hhalf, hodd⟩ := toNat_half len
    have := hodd.1 h
    omega
  have hdata : ∀ sum, (if len &&& 1 ≠ 0 then
      addWords data 0 (len / 2).toNat sum + (data (len.toNat - 1)).toUInt32
      else addWords data 0 (len / 2).toNat sum) = sumWords sum (Ring.read data 0 len.toNat) := by
    intro sum
    rw [← addWords_half]
    split
    · rename_i h
      rw [hlast h]
    · rfl
  have hpseudo := addWords_eq (fun i => (pseudoHeader src dst (Tcp.tcpHeaderSize + len)).getD i 0)
    0 6 0
  have hheader := addWords_eq (fun i => tcp.bytes.getD i 0) 0 10
  rw [show Ring.read (fun i => (pseudoHeader src dst (Tcp.tcpHeaderSize + len)).getD i 0) 0 (2 * 6) =
    pseudoHeader src dst (Tcp.tcpHeaderSize + len) from Ring.read_getD _ 0] at hpseudo
  simp only [show Ring.read (fun i => tcp.bytes.getD i 0) 0 (2 * 10) = tcp.bytes from
    Ring.read_getD _ 0] at hheader
  rw [tcpChecksumLoop]
  simp only [Nat.reduceDiv, hpseudo, hheader, hdata, foldLoop_eq]
  rfl

/-- **The checksum of an echo reply is `ip_checksum` of its packet.** -/
theorem echoChecksum_eq (packet : ℕ → UInt8) (total : UInt16) :
    echoChecksum packet total = ipChecksumLoop packet 0 total.toUInt32 := by
  rw [ipChecksumLoop_eq, echoChecksum, foldLoop_eq, UInt16.toNat_toUInt32]
  simp only [addWords_half]
  rfl

/-- What a packet holds: the header and the data. -/
theorem read_fillPacket (old : ℕ → UInt8) (header : List UInt8) {data : Tcp.Block} {len : UInt16}
    (h : len = 0 ∨ data.addr ≠ 0) :
    Ring.read (fillPacket old header data len) 0 (header.length + len.toNat) =
      header ++ Ring.read data.bytes 0 len.toNat := by
  have hheader : Ring.read (fillPacket old header data len) 0 header.length =
      Ring.read (fun i => header.getD i 0) 0 header.length := by
    refine Ring.read_congr fun i hi => ?_
    have hfront : writeList old 0 header (0 + i) = header.getD (0 + i) 0 := if_pos (by omega)
    unfold fillPacket
    split
    · rw [Ring.copy, if_neg (by omega), hfront]
    · exact hfront
  rw [Ring.read_add, hheader, Ring.read_getD]
  congr 1
  refine Ring.read_congr fun i hi => ?_
  have hdata : len ≠ 0 ∧ data.addr ≠ 0 := by
    have hne : len ≠ 0 := by
      rintro rfl
      exact absurd hi (Nat.not_lt_zero i)
    exact ⟨hne, h.resolve_left hne⟩
  simp only [fillPacket, if_pos hdata, Ring.copy]
  rw [if_pos (by omega)]
  exact congrArg data.bytes (by omega)

/-- **The three checksum codes agree.** `ip_checksum` of a block is the
complement of the ones' complement sum of its words, and its sum does
not overflow; `tcp_checksum` is `ip_checksum` of the pseudo header, the
header and the data one after the other; and the checksum of an echo
reply is `ip_checksum` of the packet it is stored in, where its length
fits 16 bits. -/
theorem checksums_agree :
    (∀ (mem : ℕ → UInt8) (data : ℕ) (len : UInt16),
      let words := littleWords (Ring.read mem data len.toNat)
      (ipSumLoop mem data len.toNat 0).toNat = words.sum ∧
        (ipChecksumLoop mem data len.toUInt32).toNat = 65535 - OnesComplement.sum 65536 words) ∧
    (∀ (src dst : UInt32) (tcp : Tcp.TcpHeader) (data : ℕ → UInt8) (len : UInt16),
      tcpChecksumLoop src dst tcp data len =
        ipChecksumLoop (fun i => (summed src dst tcp data len).getD i 0) 0
          (UInt32.ofNat (32 + len.toNat))) ∧
    (∀ (old : ℕ → UInt8) (id seq : UInt16) (data : Tcp.Block) (len : UInt16),
      8 + len.toNat < 2 ^ 16 →
      let packet := fillPacket old (echoHeader id seq).bytes data len
      echoChecksum packet (icmpHeaderSize + len) = ipChecksumLoop packet 0 (8 + len.toUInt32) ∧
        (len = 0 ∨ data.addr ≠ 0 → Ring.read packet 0 (8 + len.toUInt32).toNat =
          (echoHeader id seq).bytes ++ Ring.read data.bytes 0 len.toNat)) := by
  refine ⟨fun mem data len => ?_, fun src dst tcp data len => ?_, fun old id seq data len hfit => ?_⟩
  · have hlen := len.toNat_lt
    have hlength : (Ring.read mem data len.toNat).length ≤ 2 ^ 17 - 3 := by
      rw [Ring.length_read]
      omega
    refine ⟨?_, ?_⟩
    · rw [ipSumLoop_eq, toNat_sumWords_zero hlength, sum_littleWords]
    · rw [ipChecksumLoop_eq, UInt16.toNat_toUInt32, toNat_ipChecksum hlength]
  · have hlen := len.toNat_lt
    have hnum : (UInt32.ofNat (32 + len.toNat)).toNat = (summed src dst tcp data len).length := by
      rw [length_summed, UInt32.toNat_ofNat_of_lt' (by simp only [UInt32.size]; omega)]
    rw [tcpChecksumLoop_eq, tcpChecksum_eq, ipChecksumLoop_eq, hnum, Ring.read_getD, ipChecksum]
  · have hlen := len.toNat_lt
    have htotal : (icmpHeaderSize + len).toUInt32 = 8 + len.toUInt32 := by
      rw [← UInt32.toNat_inj, UInt16.toNat_toUInt32, UInt16.toNat_add, UInt32.toNat_add,
        UInt16.toNat_toUInt32]
      change (8 + len.toNat) % 2 ^ 16 = (8 + len.toNat) % 2 ^ 32
      omega
    have hnum : (8 + len.toUInt32).toNat = (echoHeader id seq).bytes.length + len.toNat := by
      rw [UInt32.toNat_add, UInt16.toNat_toUInt32]
      change (8 + len.toNat) % 2 ^ 32 = 8 + len.toNat
      omega
    refine ⟨?_, fun h => ?_⟩
    · rw [echoChecksum_eq, htotal]
    · rw [hnum]
      exact read_fillPacket old _ h

/-- An echo reply with three bytes of data, in memory that held something
else. -/
theorem checksums_agree_three_bytes :
    let packet := fillPacket (fun _ => 0xFF) (echoHeader 1 2).bytes ⟨1, fun i => UInt8.ofNat (i + 1)⟩ 3
    echoChecksum packet (icmpHeaderSize + 3) = ipChecksumLoop packet 0 11 ∧
      Ring.read packet 0 11 = [0, 0, 0, 0, 0, 1, 0, 2, 1, 2, 3] := by
  intro packet
  obtain ⟨hsum, hread⟩ := checksums_agree.2.2 (fun _ => 0xFF) 1 2 ⟨1, fun i => UInt8.ofNat (i + 1)⟩ 3
    (by decide)
  exact ⟨hsum, hread (Or.inr (by decide))⟩

end Net

end Kos
