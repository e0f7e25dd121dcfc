import Kos.Net.Verify
/-!
# Net — the checksum of a header with options

RFC 791 sums up the whole header, `IHL * 4` bytes of it, in network
order. `ip_rx` sums up the first 20 bytes, in the order of the machine.
The order makes no difference: swapping the bytes of a word is a
multiplication modulo `2 ^ 16 - 1`. The length does: the two agree
exactly if the options add up to nothing.
-/

namespace Kos

namespace Net

variable {mem : ℕ → UInt8} {h : Host} {ip x m n : ℕ}

/-! ## Network order -/

/-- The words of a block in network order, an odd last byte filled up
with zero. -/
def bigWords : List UInt8 → List ℕ
  | [] => []
  | [b] => [256 * b.toNat]
  | hi :: lo :: rest => (256 * hi.toNat + lo.toNat) :: bigWords rest

/-- A word with its bytes swapped. -/
def swap16 (x : ℕ) : ℕ := 256 * (x % 256) + x / 256

theorem swap16_lt (h : x < 65536) : swap16 x < 65536 := by
  unfold swap16
  omega

theorem swap16_inj (hm : m < 65536) (hn : n < 65536) : swap16 m = swap16 n ↔ m = n := by
  unfold swap16
  omega

theorem swap16_complement (h : x < 65536) : swap16 (65535 - x) = 65535 - swap16 x := by
  unfold swap16
  omega

/-- **Swapping the bytes of a word is a multiplication.** -/
theorem stands_swap16 (x : ℕ) : OnesComplement.Stands 65536 (swap16 x) (256 * x) := by
  refine ⟨?_, ?_⟩
  · unfold Nat.ModEq swap16
    omega
  · unfold swap16
    omega

theorem bigWords_lt : ∀ {bytes : List UInt8}, ∀ w ∈ bigWords bytes, w < 65536
  | [], w, hw => absurd hw List.not_mem_nil
  | [b], w, hw => by
    have hb := b.toNat_lt
    rw [List.mem_singleton.1 hw]
    omega
  | hi :: lo :: rest, w, hw => by
    rcases List.mem_cons.1 hw with rfl | hw
    · have hlo := lo.toNat_lt
      have hhi := hi.toNat_lt
      omega
    · exact bigWords_lt w hw

theorem sum_bigWords_append : ∀ {as : List UInt8} (bs : List UInt8), Even as.length →
    (bigWords (as ++ bs)).sum = (bigWords as).sum + (bigWords bs).sum
  | [], bs, _ => by rw [List.nil_append, bigWords, List.sum_nil, Nat.zero_add]
  | [_], _, h => absurd (show Even 1 from h) (by decide)
  | hi :: lo :: rest, bs, h => by
    have hrest : Even rest.length := by
      simpa [Nat.even_add_one] using h
    rw [List.cons_append, List.cons_append, bigWords, bigWords, List.sum_cons, List.sum_cons,
      sum_bigWords_append bs hrest]
    omega

/-- **The sum in network order** stands for the sum in the order of the
machine, multiplied. -/
theorem stands_bigWords : ∀ bytes : List UInt8,
    OnesComplement.Stands 65536 (bigWords bytes).sum (256 * wordSum bytes)
  | [] => OnesComplement.Stands.refl _ 0
  | [b] => OnesComplement.Stands.refl _ (256 * b.toNat)
  | hi :: lo :: rest => by
    obtain ⟨hmod, hzero⟩ := stands_bigWords rest
    have hword : 256 * (word16 hi lo).toNat =
        256 * hi.toNat + lo.toNat + (65536 - 1) * lo.toNat := by
      rw [toNat_word16]
      omega
    rw [bigWords, List.sum_cons, wordSum, Nat.mul_add, hword]
    refine ⟨?_, by omega⟩
    refine Nat.ModEq.add ?_ hmod
    exact (Nat.add_mul_mod_self_left ..).symm

/-- The ones' complement sum of a block in network order. -/
def networkSum (bytes : List UInt8) : ℕ := OnesComplement.sum 65536 (bigWords bytes)

theorem networkSum_eq (bytes : List UInt8) :
    networkSum bytes = OnesComplement.reduce 65536 (bigWords bytes).sum :=
  OnesComplement.sum_eq_reduce (by decide) bigWords_lt

/-- **The two sums of a block differ in the order of their bytes only.** -/
theorem networkSum_eq_swap16 (bytes : List UInt8) :
    networkSum bytes = swap16 (OnesComplement.sum 65536 (littleWords bytes)) := by
  rw [networkSum_eq, OnesComplement.sum_eq_reduce (by decide) littleWords_lt, sum_littleWords]
  have hlt := OnesComplement.reduce_lt (B := 65536) (by decide) (wordSum bytes)
  have hred := OnesComplement.stands_reduce 65536 (wordSum bytes)
  have hbig := stands_bigWords bytes
  have hswap := stands_swap16 (OnesComplement.reduce 65536 (wordSum bytes))
  refine (OnesComplement.Stands.eq_reduce (by decide) ⟨?_, ?_⟩ (swap16_lt hlt)).symm
  · exact (hswap.residue.trans (hred.residue.mul_left 256)).trans hbig.residue.symm
  · rw [hswap.zero, hbig.zero]
    have := hred.zero
    omega

/-! ## The two checksums of a header -/

/-- `IHL * 4`. -/
def headerLength (mem : ℕ → UInt8) (ip : ℕ) : ℕ := 4 * (mem ip &&& 0x0F).toNat

/-- **The checksum of RFC 791**: the complement of the sum of the whole
header, with the check field zero. -/
def rfcChecksum (mem : ℕ → UInt8) (ip : ℕ) : ℕ :=
  65535 - networkSum (Ring.read (clearCheck mem ip) ip (headerLength mem ip))

/-- The check field, in network order. -/
def checkField (mem : ℕ → UInt8) (ip : ℕ) : ℕ := (field16 mem (ip + 10)).toNat

/-- What the options of a header add up to. -/
def optionSum (mem : ℕ → UInt8) (ip : ℕ) : ℕ :=
  (bigWords (Ring.read mem (ip + 20) (headerLength mem ip - 20))).sum

theorem headerLength_lt (mem : ℕ → UInt8) (ip : ℕ) : headerLength mem ip < 64 := by
  have hnibble : (mem ip &&& 0x0F).toNat < 16 := by
    rw [UInt8.toNat_and]
    exact Nat.lt_of_le_of_lt Nat.and_le_right (by decide)
  unfold headerLength
  omega

theorem toNat_ihl (mem : ℕ → UInt8) (ip : ℕ) : (ihl mem ip).toNat = headerLength mem ip := by
  have hlt := headerLength_lt mem ip
  rw [ihl, UInt8.toNat_mul]
  unfold headerLength at hlt ⊢
  change (mem ip &&& 0x0F).toNat * 4 % 256 = _
  omega

/-- The check field as the machine reads it. -/
theorem checkField_eq (mem : ℕ → UInt8) (ip : ℕ) :
    checkField mem ip = swap16 (word16 (mem (ip + 10)) (mem (ip + 11))).toNat := by
  have hlo := (mem (ip + 10)).toNat_lt
  have hhi := (mem (ip + 11)).toNat_lt
  rw [checkField, field16, show ip + 10 + 1 = ip + 11 from rfl, toNat_word16, toNat_word16, swap16]
  omega

/-- **What `ip_rx` checks, in network order**: the sum of the first 20
bytes. -/
theorem checksumOk_iff_network (mem : ℕ → UInt8) (ip : ℕ) : checksumOk mem ip = true ↔
    checkField mem ip = 65535 - networkSum (Ring.read (clearCheck mem ip) ip 20) := by
  have hlt : OnesComplement.sum 65536 (littleWords (Ring.read (clearCheck mem ip) ip 20)) < 65536 := by
    rw [OnesComplement.sum_eq_reduce (by decide) littleWords_lt]
    exact OnesComplement.reduce_lt (by decide) _
  have hword := (word16 (mem (ip + 10)) (mem (ip + 11))).toNat_lt
  rw [checksumOk, beq_iff_eq, ← UInt16.toNat_inj, toNat_ipChecksum (by rw [Ring.length_read]; decide),
    checkField_eq, networkSum_eq_swap16, ← swap16_complement hlt,
    swap16_inj (Nat.lt_of_lt_of_le hword (by decide)) (by omega)]
  exact eq_comm

/-- The sum of a header is that of its first 20 bytes and its options. -/
theorem sum_header (hihl : 20 ≤ headerLength mem ip) :
    (bigWords (Ring.read (clearCheck mem ip) ip (headerLength mem ip))).sum =
      (bigWords (Ring.read (clearCheck mem ip) ip 20)).sum + optionSum mem ip := by
  have hoptions : Ring.read (clearCheck mem ip) (ip + 20) (headerLength mem ip - 20) =
      Ring.read mem (ip + 20) (headerLength mem ip - 20) :=
    Ring.read_congr fun i _ => clearCheck_of_ne (by omega) (by omega)
  have hsplit : headerLength mem ip = 20 + (headerLength mem ip - 20) := by omega
  rw [optionSum, ← hoptions]
  conv_lhs => rw [hsplit, Ring.read_add]
  exact sum_bigWords_append _ (by rw [Ring.length_read]; decide)

/-- A header with a length does not add up to zero. -/
theorem sum_front_pos (hihl : 20 ≤ headerLength mem ip) :
    0 < (bigWords (Ring.read (clearCheck mem ip) ip 20)).sum := by
  have hfirst : 0 < (clearCheck mem ip ip).toNat := by
    rw [clearCheck_of_ne (by omega) (by omega)]
    by_contra hz
    have hzero : mem ip = 0 := UInt8.toNat_inj.1 (Nat.eq_zero_of_not_pos hz)
    rw [headerLength, hzero] at hihl
    exact absurd hihl (by decide)
  rw [show (20 : ℕ) = 18 + 2 from rfl, read_succ_succ, bigWords, List.sum_cons]
  omega

/-- **The two checksums of a header are congruent** exactly if the options
add up to nothing; then they are the same. -/
theorem rfcChecksum_modEq_iff (hihl : 20 ≤ headerLength mem ip) :
    let front := 65535 - networkSum (Ring.read (clearCheck mem ip) ip 20)
    (front ≡ rfcChecksum mem ip [MOD 65535] ↔ optionSum mem ip ≡ 0 [MOD 65535]) ∧
      (optionSum mem ip ≡ 0 [MOD 65535] → front = rfcChecksum mem ip) := by
  intro front
  have hpos := (sum_front_pos hihl).ne'
  have hfront : front = 65536 - 1 -
      OnesComplement.reduce 65536 (bigWords (Ring.read (clearCheck mem ip) ip 20)).sum :=
    congrArg (65535 - ·) (networkSum_eq _)
  have hrfc : rfcChecksum mem ip = 65536 - 1 - OnesComplement.reduce 65536
      ((bigWords (Ring.read (clearCheck mem ip) ip 20)).sum + optionSum mem ip) := by
    rw [rfcChecksum, networkSum_eq, sum_header hihl]
  have hsame := OnesComplement.reduce_add_eq_iff (b := optionSum mem ip) hpos
    (show 2 ≤ 65536 by decide)
  rw [hfront, hrfc]
  refine ⟨?_, fun hmod => by rw [hsame.2 hmod]⟩
  exact (OnesComplement.complement_modEq_iff hpos (by omega) (by decide)).trans hsame

/-! ## What RFC 791 asks of `ip_rx` -/

/-- **`ip_rx` checks the header of a packet as RFC 791 says**: it accepts
the checksum of the whole header, and it calls no handler if the check
field is not congruent to that. -/
structure ChecksRfc (h : Host) (ip : ℕ) : Prop where
  accepts : 20 ≤ headerLength h.mem ip → checkField h.mem ip = rfcChecksum h.mem ip →
    checksumOk h.mem ip = true
  rejects : ¬ checkField h.mem ip ≡ rfcChecksum h.mem ip [MOD 65535] → CallsNone h ip

/-- A header that is too short has no options. -/
theorem optionSum_of_short (hihl : headerLength mem ip ≤ 20) : optionSum mem ip = 0 := by
  rw [optionSum, Nat.sub_eq_zero_of_le hihl]
  rfl

/-- **Of one packet**: the options add up to nothing, or the check field
is another and no handler is called anyway. -/
theorem checksRfc_packet (h : Host) (ip : ℕ) : ChecksRfc h ip ↔
    optionSum h.mem ip ≡ 0 [MOD 65535] ∨ (checkField h.mem ip ≠ rfcChecksum h.mem ip ∧
      ¬ (Accepted h.localIp h.mem ip ∧ ∃ p : Proto, h.mem (ip + 9) = p.number)) := by
  rw [← callsNone_iff]
  rcases Nat.lt_or_ge (headerLength h.mem ip) 20 with hshort | hihl
  · -- too short: `ip_rx` drops it
    have hdrop : CallsNone h ip := by
      refine callsNone_of_not_accepted fun haccept => ?_
      have hle := haccept.2.1
      rw [toNat_ihl] at hle
      omega
    have hnone : optionSum h.mem ip ≡ 0 [MOD 65535] := by
      rw [optionSum_of_short hshort.le]
    exact iff_of_true ⟨fun hle => absurd hle (by omega), fun _ => hdrop⟩ (Or.inl hnone)
  · obtain ⟨hmod, heq⟩ := rfcChecksum_modEq_iff hihl
    have hok := checksumOk_iff_network h.mem ip
    constructor
    · intro hrfc
      by_cases hoption : optionSum h.mem ip ≡ 0 [MOD 65535]
      · exact Or.inl hoption
      · refine Or.inr ⟨fun hcheck => hoption (hmod.1 ?_), ?_⟩
        · rw [← hok.1 (hrfc.accepts hihl hcheck), hcheck]
        · by_cases hsame : checkField h.mem ip ≡ rfcChecksum h.mem ip [MOD 65535]
          · refine callsNone_of_not_accepted fun haccept => hoption (hmod.1 ?_)
            rw [← hok.1 haccept.1]
            exact hsame
          · exact hrfc.rejects hsame
    · rintro (hoption | ⟨hcheck, hnone⟩)
      · rw [heq hoption] at hok
        refine ⟨fun _ hcheck => hok.2 hcheck, fun hne => ?_⟩
        refine callsNone_of_not_accepted fun haccept => hne ?_
        rw [hok.1 haccept.1]
      · exact ⟨fun _ hc => absurd hc hcheck, fun _ => hnone⟩

/-- The check field of a header can be any word. -/
theorem exists_checkField (mem : ℕ → UInt8) (ip : ℕ) (hx : x < 65536) :
    ∃ c : UInt16, checkField (setWord mem ip 5 c) ip = x := by
  refine ⟨UInt16.ofNat (swap16 x), ?_⟩
  have hnum : (UInt16.ofNat (swap16 x)).toNat = swap16 x :=
    UInt16.toNat_ofNat_of_lt' (swap16_lt hx)
  have hword : word16 (setWord mem ip 5 (UInt16.ofNat (swap16 x)) (ip + 10))
      (setWord mem ip 5 (UInt16.ofNat (swap16 x)) (ip + 11)) = UInt16.ofNat (swap16 x) := by
    have h := wordAt_setWord mem ip 5 5 (UInt16.ofNat (swap16 x))
    rwa [if_pos rfl] at h
  rw [checkField_eq, hword, hnum]
  unfold swap16
  omega

/-- The check field is no part of what is summed up. -/
theorem sums_setWord_check (mem : ℕ → UInt8) (ip : ℕ) (c : UInt16) :
    rfcChecksum (setWord mem ip 5 c) ip = rfcChecksum mem ip ∧
      optionSum (setWord mem ip 5 c) ip = optionSum mem ip := by
  have hother : ∀ x, x ≠ ip + 10 → x ≠ ip + 11 → setWord mem ip 5 c x = mem x := by
    intro x h0 h1
    rw [setWord_eq, Function.update_of_ne h1, Function.update_of_ne h0]
  have hlength : headerLength (setWord mem ip 5 c) ip = headerLength mem ip := by
    rw [headerLength, hother ip (by omega) (by omega), headerLength]
  refine ⟨?_, ?_⟩
  · rw [rfcChecksum, hlength, clearCheck_eq, setWord_setWord, ← clearCheck_eq, rfcChecksum]
  · rw [optionSum, optionSum, hlength]
    exact congrArg (fun bytes => (bigWords bytes).sum)
      (Ring.read_congr fun i _ => hother _ (by omega) (by omega))

/-- **When `ip_rx` checks headers as RFC 791 says**: a header is checked
so whatever its check field is, exactly if its options add up to nothing
modulo `2 ^ 16 - 1`. A packet whose options do not is checked so only if
its check field is not the one RFC 791 asks for and `ip_rx` does not
take it for good. -/
theorem checksRfc_iff (h : Host) (ip : ℕ) :
    ((∀ c : UInt16, ChecksRfc { h with mem := setWord h.mem ip 5 c } ip) ↔
      optionSum h.mem ip ≡ 0 [MOD 65535]) ∧
    (ChecksRfc h ip ↔ optionSum h.mem ip ≡ 0 [MOD 65535] ∨
      (checkField h.mem ip ≠ rfcChecksum h.mem ip ∧
        ¬ (Accepted h.localIp h.mem ip ∧ ∃ p : Proto, h.mem (ip + 9) = p.number))) := by
  refine ⟨⟨fun hall => ?_, fun hoption c => ?_⟩, checksRfc_packet h ip⟩
  · -- the check field that RFC 791 asks for
    have hlt : rfcChecksum h.mem ip < 65536 := by
      unfold rfcChecksum
      omega
    obtain ⟨c, hc⟩ := exists_checkField h.mem ip hlt
    obtain ⟨hrfc, hoption⟩ := sums_setWord_check h.mem ip c
    rcases (checksRfc_packet _ ip).1 (hall c) with hnone | ⟨hne, -⟩
    · rwa [hoption] at hnone
    · exact absurd (hc.trans hrfc.symm) hne
  · rw [checksRfc_packet, (sums_setWord_check h.mem ip c).2]
    exact Or.inl hoption

/-- A header with three options of no effect, and the checksum RFC 791
asks for. -/
theorem checksRfc_options_fail :
    let mem : ℕ → UInt8 := fun i => [0x46, 0, 0, 24, 0, 0, 0, 0, 64, 17, 0x5F, 0xC4, 10, 0, 2, 2,
      10, 0, 2, 15, 1, 1, 1, 0].getD i 0
    let h := Host.start mem 0x0A00020F [] (Tcp.tcpInit (fun _ => .zero) none)
    checkField mem 0 = rfcChecksum mem 0 ∧ checksumOk mem 0 = false ∧ ¬ ChecksRfc h 0 := by
  intro mem h
  have hcheck : checkField mem 0 = rfcChecksum mem 0 := by decide
  have hok : checksumOk mem 0 = false := by decide
  refine ⟨hcheck, hok, fun hrfc => ?_⟩
  have hacc : checksumOk mem 0 = true := hrfc.accepts (by decide) hcheck
  rw [hok] at hacc
  exact Bool.noConfusion hacc

end Net

end Kos
