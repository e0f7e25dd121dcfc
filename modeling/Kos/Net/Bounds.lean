import Kos.Net.Model
/-!
# Net — what is read of a frame lies in it

`network_rx` checks that the Ethernet header was received and nothing
below it is checked again: `ip_rx` is given a length and does not look
at it. `Framed` is the exact condition on a frame under which every
field read and every payload passed on lies in the bytes received, and
no length goes below zero.
-/

namespace Kos

namespace Net

variable {h : Host} {n pos len : ℕ} {mem : ℕ → UInt8} {ip : ℕ}

/-- **Everything touched lies in the first `n` bytes**, and no length
wrapped. -/
def Host.InBounds (h : Host) (n : ℕ) : Prop :=
  (∀ r ∈ h.touched, r.1 + r.2 ≤ n) ∧ h.wrapped = false

/-- The IP header that `ip_rx` goes on with. -/
def Accepted (localIp : UInt32) (mem : ℕ → UInt8) (ip : ℕ) : Prop :=
  checksumOk mem ip = true ∧ 20 ≤ (ihl mem ip).toNat ∧
    (field32 mem (ip + 16) = localIp ∨ field32 mem (ip + 16) = 0xFFFFFFFF)

/-- The total length leaves room for the headers, and for a handler's
payload the frame has it. -/
def LengthOk (mem : ℕ → UInt8) (n : ℕ) : Prop :=
  let ihl := (ihl mem 14).toNat
  let tot := (field16 mem 16).toNat
  ihl ≤ tot ∧ (mem 23 = ipPIcmp → ihl + 8 ≤ tot ∧ 14 + tot ≤ n) ∧
    (mem 23 = ipPTcp → ihl + 20 ≤ tot ∧ 14 + tot ≤ n) ∧
    (mem 23 = ipPUdp → ihl + 8 ≤ tot ∧ 14 + tot ≤ n)

/-- **The frames that are read within their bounds.** -/
def Framed (localIp : UInt32) (mem : ℕ → UInt8) (n : ℕ) : Prop :=
  14 ≤ n →
    (field16 mem 12 = ethPIp → 34 ≤ n ∧ (Accepted localIp mem 14 → LengthOk mem n)) ∧
    (field16 mem 12 = ethPArp →
      22 ≤ n ∧ (field16 mem 20 = 1 → 42 ≤ n) ∧ (field16 mem 20 = 2 → 32 ≤ n))

/-! ## One access -/

@[simp] theorem touch_mem (h : Host) (pos len : ℕ) : (h.touch pos len).mem = h.mem := rfl

@[simp] theorem touch_localIp (h : Host) (pos len : ℕ) : (h.touch pos len).localIp = h.localIp := rfl

@[simp] theorem inBounds_touch : (h.touch pos len).InBounds n ↔ h.InBounds n ∧ pos + len ≤ n := by
  simp only [Host.InBounds, Host.touch, List.mem_append, List.mem_singleton]
  constructor
  · rintro ⟨hr, hw⟩
    exact ⟨⟨fun r hmem => hr r (Or.inl hmem), hw⟩, hr (pos, len) (Or.inr rfl)⟩
  · rintro ⟨⟨hr, hw⟩, hle⟩
    refine ⟨fun r hmem => ?_, hw⟩
    rcases hmem with hmem | rfl
    · exact hr r hmem
    · exact hle

theorem inBounds_sub16 (h : Host) (a b : UInt16) :
    (h.sub16 a b).2.InBounds n ↔ h.InBounds n ∧ b.toNat ≤ a.toNat := by
  simp only [Host.InBounds, Host.sub16, Bool.or_eq_false_iff, decide_eq_false_iff_not,
    UInt16.lt_iff_toNat_lt, Nat.not_lt, and_assoc]

theorem toNat_sub16 (h : Host) {a b : UInt16} (hle : b.toNat ≤ a.toNat) :
    (h.sub16 a b).1.toNat = a.toNat - b.toNat := by
  have ha := a.toNat_lt
  have hb := b.toNat_lt
  change (a - b).toNat = _
  rw [UInt16.toNat_sub]
  omega

/-! ## The handlers -/

/-- **`arp_rx`** reads the operation, and the fields of a request or a
reply. -/
theorem inBounds_arpRx (h : Host) (n arp : ℕ) : (arpRx h arp).InBounds n ↔
    h.InBounds n ∧ arp + 8 ≤ n ∧ (field16 h.mem (arp + 6) = 1 → arp + 28 ≤ n) ∧
      (field16 h.mem (arp + 6) = 2 → arp + 18 ≤ n) := by
  by_cases hreq : field16 h.mem (arp + 6) = 1
  · have heq : arpRx h arp = (h.touch (arp + 6) 2).touch (arp + 24) 4 := if_pos hreq
    have hne : ¬ (1 : UInt16) = 2 := by decide
    rw [heq, inBounds_touch, inBounds_touch, hreq]
    simp only [true_imp_iff, hne, false_imp_iff, and_true, and_assoc]
  · by_cases hrep : field16 h.mem (arp + 6) = 2
    · have heq : (arpRx h arp).InBounds n ↔
          ((((h.touch (arp + 6) 2).touch (arp + 6) 2).touch (arp + 14) 4).touch
            (arp + 8) 6).InBounds n := by
        rw [show arpRx h arp = _ from (if_neg hreq).trans (if_pos hrep)]
        rfl
      have hne : ¬ (2 : UInt16) = 1 := by decide
      simp only [heq, inBounds_touch, hrep, hne, false_imp_iff, true_imp_iff, true_and, and_assoc]
      refine and_congr_right fun _ => ?_
      omega
    · have heq : arpRx h arp = (h.touch (arp + 6) 2).touch (arp + 6) 2 :=
        (if_neg hreq).trans (if_neg hrep)
      simp only [heq, inBounds_touch, hreq, hrep, false_imp_iff, and_true, and_assoc, and_self]

/-- **`icmp_rx`** reads its own header and the source address. -/
theorem inBounds_icmpRx {icmp data : ℕ} {len : UInt16} (hb : h.InBounds n) (hip : ip + 16 ≤ n)
    (hicmp : icmp + 8 ≤ n) : (icmpRx h ip icmp data len).InBounds n := by
  unfold icmpRx
  simp only
  split
  · change ((((h.touch icmp 1).touch (ip + 12) 4).touch (icmp + 4) 2).touch (icmp + 6) 2).InBounds n
    simp only [inBounds_touch]
    exact ⟨⟨⟨⟨hb, by omega⟩, by omega⟩, by omega⟩, by omega⟩
  · rw [inBounds_touch]
    exact ⟨hb, by omega⟩

/-- **`tcp_rx`** reads its own header. -/
theorem inBounds_tcpRx {tcp payload : ℕ} {len : UInt16} (hb : h.InBounds n)
    (htcp : tcp + 20 ≤ n) : (tcpRx h tcp payload len).InBounds n := by
  have hports : ((h.touch (tcp + 2) 2).touch tcp 2).InBounds n := by
    simp only [inBounds_touch]
    exact ⟨⟨hb, by omega⟩, by omega⟩
  unfold tcpRx
  simp only
  split
  · exact hports
  · change (((((h.touch (tcp + 2) 2).touch tcp 2).touch (tcp + 13) 1).touch (tcp + 4) 4).touch
      (tcp + 8) 4).InBounds n
    rw [inBounds_touch, inBounds_touch, inBounds_touch]
    exact ⟨⟨⟨hports, by omega⟩, by omega⟩, by omega⟩

/-- What a handler touched before stays touched. -/
def Grows (handler : Host → ℕ → ℕ → UInt16 → Host) : Prop :=
  ∀ h payload data len n, (handler h payload data len).InBounds n → h.InBounds n

/-- **Passing a payload on**: it is in bounds exactly if its header and
its data are, for a handler that reads no more than its header. -/
theorem inBounds_passTo {handler : Host → ℕ → ℕ → UInt16 → Host} {payload : ℕ}
    {size dataLen : UInt16} (hgrows : Grows handler)
    (hreads : ∀ h : Host, h.InBounds n → payload + size.toNat ≤ n →
      ∀ data len, (handler h payload data len).InBounds n) :
    (h.passTo handler payload size dataLen).InBounds n ↔
      h.InBounds n ∧ size.toNat ≤ dataLen.toNat ∧ payload + dataLen.toNat ≤ n := by
  have hpass : ((h.sub16 dataLen size).2.touch (payload + size.toNat)
      (h.sub16 dataLen size).1.toNat).InBounds n ↔
      h.InBounds n ∧ size.toNat ≤ dataLen.toNat ∧ payload + dataLen.toNat ≤ n := by
    rw [inBounds_touch, inBounds_sub16, and_assoc]
    refine and_congr_right fun _ => and_congr_right fun hle => ?_
    rw [toNat_sub16 h hle]
    omega
  constructor
  · intro hb
    exact hpass.mp (hgrows _ _ _ _ _ hb)
  · intro hb
    refine hreads _ (hpass.mpr hb) ?_ _ _
    omega

theorem passTo_grows {handler : Host → ℕ → ℕ → UInt16 → Host} {payload : ℕ}
    {size dataLen : UInt16} (hgrows : Grows handler)
    (hb : (h.passTo handler payload size dataLen).InBounds n) : h.InBounds n :=
  ((inBounds_sub16 ..).mp (inBounds_touch.mp (hgrows _ _ _ _ _ hb)).1).1

theorem grows_icmpRx (ip : ℕ) : Grows fun h icmp data len => icmpRx h ip icmp data len := by
  intro h icmp data len n hb
  unfold icmpRx at hb
  simp only at hb
  split at hb
  · have hb : ((((h.touch icmp 1).touch (ip + 12) 4).touch (icmp + 4) 2).touch
        (icmp + 6) 2).InBounds n := hb
    simp only [inBounds_touch] at hb
    exact hb.1.1.1.1
  · exact (inBounds_touch.mp hb).1

theorem grows_tcpRx : Grows tcpRx := by
  intro h tcp payload len n hb
  unfold tcpRx at hb
  simp only at hb
  split at hb
  · simp only [inBounds_touch] at hb
    exact hb.1.1
  · have hb : (((((h.touch (tcp + 2) 2).touch tcp 2).touch (tcp + 13) 1).touch (tcp + 4) 4).touch
        (tcp + 8) 4).InBounds n := hb
    simp only [inBounds_touch] at hb
    exact hb.1.1.1.1.1

/-! ## The frame -/

theorem clearCheck_of_ne (h₁ : pos ≠ ip + 10) (h₂ : pos ≠ ip + 11) :
    clearCheck mem ip pos = mem pos := by
  rw [clearCheck, Function.update_of_ne h₂, Function.update_of_ne h₁]

/-- Clearing the checksum leaves the other fields of the header. -/
theorem clearCheck_header (mem : ℕ → UInt8) (ip : ℕ) :
    ihl (clearCheck mem ip) ip = ihl mem ip ∧
      field32 (clearCheck mem ip) (ip + 16) = field32 mem (ip + 16) ∧
      field16 (clearCheck mem ip) (ip + 2) = field16 mem (ip + 2) ∧
      clearCheck mem ip (ip + 9) = mem (ip + 9) := by
  refine ⟨?_, ?_, ?_, ?_⟩
  · rw [ihl, clearCheck_of_ne (by omega) (by omega), ihl]
  · simp only [field32, field16]
    rw [clearCheck_of_ne (by omega) (by omega), clearCheck_of_ne (by omega) (by omega),
      clearCheck_of_ne (by omega) (by omega), clearCheck_of_ne (by omega) (by omega)]
  · simp only [field16]
    rw [clearCheck_of_ne (by omega) (by omega), clearCheck_of_ne (by omega) (by omega)]
  · exact clearCheck_of_ne (by omega) (by omega)

/-- The fields of a header behind the Ethernet header. -/
theorem clearCheck_fields (mem : ℕ → UInt8) :
    ihl (clearCheck mem 14) 14 = ihl mem 14 ∧
      field32 (clearCheck mem 14) 30 = field32 mem 30 ∧
      field16 (clearCheck mem 14) 16 = field16 mem 16 ∧ clearCheck mem 14 23 = mem 23 :=
  clearCheck_header mem 14

/-- The host when the switch of `ip_rx` is reached. -/
def Host.atSwitch (h : Host) (ip : ℕ) (ihl : UInt8) : Host :=
  ((h.touch (ip + 2) 2).sub16 (field16 h.mem (ip + 2)) ihl.toUInt16).2.touch (ip + 9) 1

/-- `data_len` of `ip_rx`. -/
def dataLen (mem : ℕ → UInt8) (ip : ℕ) (ihl : UInt8) : UInt16 :=
  field16 mem (ip + 2) - ihl.toUInt16

theorem ipDispatch_eq (h : Host) (ip : ℕ) (ihl : UInt8) : ipDispatch h ip ihl =
    if h.mem (ip + 9) = ipPIcmp then
      (h.atSwitch ip ihl).passTo (fun h icmp data len => icmpRx h ip icmp data len) (ip + ihl.toNat)
        8 (dataLen h.mem ip ihl)
    else if h.mem (ip + 9) = ipPTcp then
      (h.atSwitch ip ihl).passTo tcpRx (ip + ihl.toNat) 20 (dataLen h.mem ip ihl)
    else if h.mem (ip + 9) = ipPUdp then
      (h.atSwitch ip ihl).passTo (fun h _ _ _ => h) (ip + ihl.toNat) 8 (dataLen h.mem ip ihl)
    else h.atSwitch ip ihl := rfl

theorem inBounds_atSwitch {ihl : UInt8} : (h.atSwitch ip ihl).InBounds n ↔
    h.InBounds n ∧ ihl.toNat ≤ (field16 h.mem (ip + 2)).toNat ∧ ip + 10 ≤ n := by
  rw [Host.atSwitch, inBounds_touch, inBounds_sub16, inBounds_touch, UInt8.toNat_toUInt16]
  constructor
  · rintro ⟨⟨⟨hb, -⟩, hle⟩, hn⟩
    exact ⟨hb, hle, hn⟩
  · rintro ⟨hb, hle, hn⟩
    exact ⟨⟨⟨hb, by omega⟩, hle⟩, hn⟩

/-- **Passing the payload of a datagram on**: the total length covers both
headers and the frame has it. -/
theorem inBounds_passTo_atSwitch {handler : Host → ℕ → ℕ → UInt16 → Host} {ihl : UInt8}
    (size : UInt16) (hn : ip + 10 ≤ n) (hgrows : Grows handler)
    (hreads : ∀ h : Host, h.InBounds n → ip + ihl.toNat + size.toNat ≤ n →
      ∀ data len, (handler h (ip + ihl.toNat) data len).InBounds n) :
    ((h.atSwitch ip ihl).passTo handler (ip + ihl.toNat) size (dataLen h.mem ip ihl)).InBounds n ↔
      h.InBounds n ∧ ihl.toNat ≤ (field16 h.mem (ip + 2)).toNat ∧
        ihl.toNat + size.toNat ≤ (field16 h.mem (ip + 2)).toNat ∧
        ip + (field16 h.mem (ip + 2)).toNat ≤ n := by
  rw [inBounds_passTo hgrows hreads, inBounds_atSwitch, and_assoc, and_assoc]
  refine and_congr_right fun _ => and_congr_right fun hle => ?_
  have hihl : ihl.toUInt16.toNat = ihl.toNat := UInt8.toNat_toUInt16 ihl
  have hlen : (dataLen h.mem ip ihl).toNat =
      (field16 h.mem (ip + 2)).toNat - ihl.toUInt16.toNat :=
    toNat_sub16 h (hihl.trans_le hle)
  rw [hlen, hihl]
  omega

/-- **The switch of `ip_rx`**, once the header was received. -/
theorem inBounds_ipDispatch {ihl : UInt8} (hn : 34 ≤ n) :
    (ipDispatch h 14 ihl).InBounds n ↔ h.InBounds n ∧
      (let tot := (field16 h.mem 16).toNat
      ihl.toNat ≤ tot ∧ (h.mem 23 = ipPIcmp → ihl.toNat + 8 ≤ tot ∧ 14 + tot ≤ n) ∧
        (h.mem 23 = ipPTcp → ihl.toNat + 20 ≤ tot ∧ 14 + tot ≤ n) ∧
        (h.mem 23 = ipPUdp → ihl.toNat + 8 ≤ tot ∧ 14 + tot ≤ n)) := by
  have hn' : 14 + 10 ≤ n := by omega
  rw [ipDispatch_eq]
  -- in each case the conditions for the other protocols are void
  by_cases hicmp : h.mem 23 = ipPIcmp
  · have hne : ¬ ipPIcmp = ipPTcp ∧ ¬ ipPIcmp = ipPUdp := by decide
    rw [if_pos hicmp, inBounds_passTo_atSwitch 8 hn' (grows_icmpRx 14)
      fun h hb hle data len => inBounds_icmpRx hb (by omega) hle, hicmp]
    simp only [hne.1, hne.2, true_imp_iff, false_imp_iff, and_true]
    rfl
  · rw [if_neg hicmp]
    by_cases htcp : h.mem 23 = ipPTcp
    · have hne : ¬ ipPTcp = ipPIcmp ∧ ¬ ipPTcp = ipPUdp := by decide
      rw [if_pos htcp, inBounds_passTo_atSwitch 20 hn' grows_tcpRx
        fun h hb hle data len => inBounds_tcpRx hb hle, htcp]
      simp only [hne.1, hne.2, true_imp_iff, false_imp_iff, true_and, and_true]
      rfl
    · rw [if_neg htcp]
      by_cases hudp : h.mem 23 = ipPUdp
      · have hne : ¬ ipPUdp = ipPIcmp ∧ ¬ ipPUdp = ipPTcp := by decide
        rw [if_pos hudp, inBounds_passTo_atSwitch 8 hn' (fun _ _ _ _ _ hb => hb)
          fun h hb _ _ _ => hb, hudp]
        simp only [hne.1, hne.2, true_imp_iff, false_imp_iff, true_and]
        rfl
      · rw [if_neg hudp, inBounds_atSwitch]
        simp only [hicmp, htcp, hudp, hn', false_imp_iff, and_true]

theorem ipDispatch_grows {ihl : UInt8} (hb : (ipDispatch h ip ihl).InBounds n) : h.InBounds n := by
  have hswitch : (h.atSwitch ip ihl).InBounds n → h.InBounds n :=
    fun hb => (inBounds_atSwitch.mp hb).1
  rw [ipDispatch_eq] at hb
  split at hb
  · exact hswitch (passTo_grows (grows_icmpRx ip) hb)
  · split at hb
    · exact hswitch (passTo_grows grows_tcpRx hb)
    · split at hb
      · exact hswitch (passTo_grows (fun _ _ _ _ _ hb => hb) hb)
      · exact hswitch hb

/-- The host after `ip_rx` has computed the checksum. -/
def Host.summed (h : Host) (ip : ℕ) : Host :=
  { ((h.touch (ip + 10) 2).touch (ip + 10) 2).touch ip 20 with mem := clearCheck h.mem ip }

theorem ipRx_eq (h : Host) (ip : ℕ) : ipRx h ip =
    if !checksumOk h.mem ip then h.summed ip
    else if ihl (clearCheck h.mem ip) ip < 20 then (h.summed ip).touch ip 1
    else if field32 (clearCheck h.mem ip) (ip + 16) ≠ h.localIp ∧
        field32 (clearCheck h.mem ip) (ip + 16) ≠ 0xFFFFFFFF then
      ((h.summed ip).touch ip 1).touch (ip + 16) 4
    else ipDispatch (((h.summed ip).touch ip 1).touch (ip + 16) 4) ip
      (ihl (clearCheck h.mem ip) ip) := rfl

theorem inBounds_summed : (h.summed ip).InBounds n ↔ h.InBounds n ∧ ip + 20 ≤ n := by
  have heq : (h.summed ip).InBounds n ↔
      (((h.touch (ip + 10) 2).touch (ip + 10) 2).touch ip 20).InBounds n := Iff.rfl
  simp only [heq, inBounds_touch, and_assoc]
  refine and_congr_right fun _ => ?_
  omega

/-- What is read of the header before the switch. -/
theorem inBounds_summed_touch : (((h.summed ip).touch ip 1).touch (ip + 16) 4).InBounds n ↔
    h.InBounds n ∧ ip + 20 ≤ n := by
  rw [inBounds_touch, inBounds_touch, inBounds_summed, and_assoc, and_assoc]
  refine and_congr_right fun _ => ?_
  omega

/-- **`ip_rx`** reads its header, and passes on what the header says. -/
theorem inBounds_ipRx (h : Host) (n : ℕ) : (ipRx h 14).InBounds n ↔
    h.InBounds n ∧ 34 ≤ n ∧ (Accepted h.localIp h.mem 14 → LengthOk h.mem n) := by
  obtain ⟨hihl, hdst, htot, hproto⟩ := clearCheck_fields h.mem
  have hrefused : ∀ h₂ : Host, (h₂.InBounds n ↔ h.InBounds n ∧ 34 ≤ n) →
      ¬ Accepted h.localIp h.mem 14 → (h₂.InBounds n ↔
        h.InBounds n ∧ 34 ≤ n ∧ (Accepted h.localIp h.mem 14 → LengthOk h.mem n)) := by
    intro h₂ hb hno
    simp only [hb, hno, false_imp_iff, and_true]
  rw [ipRx_eq, hihl, hdst]
  split
  · rename_i hsum
    refine hrefused _ inBounds_summed fun hc => ?_
    rw [hc.1] at hsum
    exact Bool.noConfusion hsum
  · rename_i hsum
    split
    · rename_i hlt
      refine hrefused _ ?_ fun hc => ?_
      · rw [inBounds_touch, inBounds_summed, and_assoc]
        refine and_congr_right fun _ => ?_
        omega
      · have := UInt8.lt_iff_toNat_lt.mp hlt
        exact absurd this (Nat.not_lt.mpr hc.2.1)
    · rename_i hlt
      split
      · rename_i hother
        exact hrefused _ inBounds_summed_touch fun hc => hc.2.2.elim hother.1 hother.2
      · rename_i hother
        have haccepted : Accepted h.localIp h.mem 14 := by
          refine ⟨by simpa using hsum, ?_, ?_⟩
          · exact Nat.not_lt.mp fun hc => hlt (UInt8.lt_iff_toNat_lt.mpr hc)
          · by_contra hc
            exact hother ⟨fun h => hc (Or.inl h), fun h => hc (Or.inr h)⟩
        have hmem : (((h.summed 14).touch 14 1).touch (14 + 16) 4).mem = clearCheck h.mem 14 := rfl
        rcases Nat.lt_or_ge n 34 with hn | hn
        · -- a header that was not received is out of bounds, whatever it says
          have hno : ¬ 34 ≤ n := Nat.not_le.mpr hn
          refine iff_of_false (fun hb => ?_) fun hb => hno hb.2.1
          exact hno (inBounds_summed_touch.mp (ipDispatch_grows hb)).2
        · rw [inBounds_ipDispatch hn, inBounds_summed_touch, hmem, htot, hproto]
          simp only [haccepted, true_imp_iff, hn, and_true, true_and]
          rfl

/-- **When a frame is read within its bounds.** For every frame of every
length, whatever memory holds past it. -/
theorem inBounds_networkRx (mem : ℕ → UInt8) (localIp : UInt32)
    (arpCache : List (UInt32 × List UInt8)) (tcp : Tcp.Stack) (len : UInt16) :
    (networkRx (Host.start mem localIp arpCache tcp) len).InBounds len.toNat ↔
      Framed localIp mem len.toNat := by
  generalize hh : Host.start mem localIp arpCache tcp = h
  obtain ⟨rfl, rfl⟩ : mem = h.mem ∧ localIp = h.localIp := by
    rw [← hh]
    exact ⟨rfl, rfl⟩
  have hstart : ∀ n, h.InBounds n := by
    intro n
    rw [← hh]
    exact ⟨fun r hr => absurd hr List.not_mem_nil, rfl⟩
  have htype : ∀ n, 14 ≤ n → (h.touch 12 2).InBounds n := fun n hn =>
    inBounds_touch.mpr ⟨hstart n, hn⟩
  unfold networkRx Framed
  split
  · rename_i hlt
    have hlt : len.toNat < 14 := UInt16.lt_iff_toNat_lt.mp hlt
    exact iff_of_true (hstart _) fun hc => absurd hlt (Nat.not_lt.mpr hc)
  · rename_i hge
    have hge : 14 ≤ len.toNat := Nat.not_lt.mp fun hc => hge (UInt16.lt_iff_toNat_lt.mpr hc)
    have hne : ¬ ethPIp = ethPArp ∧ ¬ ethPArp = ethPIp := by decide
    simp only [hge, true_imp_iff]
    split
    · rename_i hip
      have hip : field16 h.mem 12 = ethPIp := hip
      rw [inBounds_ipRx]
      simp only [hip, hne.1, htype _ hge, touch_mem, touch_localIp, true_imp_iff, false_imp_iff,
        true_and, and_true]
    · rename_i hip
      have hip : ¬ field16 h.mem 12 = ethPIp := hip
      split
      · rename_i harp
        have harp : field16 h.mem 12 = ethPArp := harp
        rw [inBounds_arpRx]
        simp only [harp, hne.2, htype _ hge, touch_mem, true_imp_iff, false_imp_iff, true_and]
      · rename_i harp
        have harp : ¬ field16 h.mem 12 = ethPArp := harp
        simp only [hip, harp, htype _ hge, false_imp_iff, and_self]

/-- An Ethernet header of type IP with nothing after it: the checksum
field is read at 24. -/
theorem header_only_frame :
    ¬ (networkRx (Host.start (fun i => if i = 12 then 8 else 0) 0xC0A80001 []
      (Tcp.tcpInit (fun _ => Tcp.Socket.zero) none)) 14).InBounds 14 := by
  intro h
  have hread := h.1 (24, 2) (by decide +kernel)
  exact absurd hread (by decide)

end Net

end Kos
