import Kos.Net.Sums
import Mathlib.Algebra.BigOperators.Group.Finset.Basic
/-!
# Net — what a checksum catches

`ip_rx` sums up the first 20 bytes of a header with the check field
cleared and compares. So a header that carries its own sum passes, and
one in which another word was replaced by a word of another residue does
not. What passes goes to a handler, if the length, the address and the
protocol say so.
-/

namespace Kos

namespace Net

variable {mem : ℕ → UInt8} {h : Host} {ip p n i : ℕ} {w : UInt16}

/-! ## Words of a header -/

/-- Word `i` of a block, as the machine reads it. -/
def wordAt (mem : ℕ → UInt8) (p i : ℕ) : UInt16 := word16 (mem (p + 2 * i)) (mem (p + 2 * i + 1))

/-- Store word `i` of a block. -/
def setWord (mem : ℕ → UInt8) (p i : ℕ) (w : UInt16) : ℕ → UInt8 := writeList mem (p + 2 * i) (le16 w)

theorem setWord_eq (mem : ℕ → UInt8) (p i : ℕ) (w : UInt16) :
    setWord mem p i w = Function.update (Function.update mem (p + 2 * i) w.toUInt8) (p + 2 * i + 1)
      (w >>> 8).toUInt8 := by
  funext x
  by_cases h0 : x = p + 2 * i
  · subst h0
    rw [Function.update_of_ne (by omega), Function.update_self]
    simp [setWord, writeList, Ring.copy, le16]
  · by_cases h1 : x = p + 2 * i + 1
    · subst h1
      rw [Function.update_self]
      simp [setWord, writeList, Ring.copy, le16]
    · rw [Function.update_of_ne h1, Function.update_of_ne h0]
      simp only [setWord, writeList, Ring.copy]
      refine if_neg ?_
      have hlen : (le16 w).length = 2 := rfl
      omega

theorem wordAt_setWord (mem : ℕ → UInt8) (p i j : ℕ) (w : UInt16) :
    wordAt (setWord mem p i w) p j = if j = i then w else wordAt mem p j := by
  rw [wordAt, setWord_eq]
  split
  · rename_i hji
    subst hji
    rw [Function.update_of_ne (by omega), Function.update_self, Function.update_self, word16_split]
  · rw [Function.update_of_ne (by omega), Function.update_of_ne (by omega),
      Function.update_of_ne (by omega), Function.update_of_ne (by omega), wordAt]

/-- Clearing the check field is storing `0` in word 5. -/
theorem clearCheck_eq (mem : ℕ → UInt8) (ip : ℕ) : clearCheck mem ip = setWord mem ip 5 0 := by
  rw [setWord_eq]
  rfl

/-- **The sum of a block, word by word.** -/
theorem wordSum_read (mem : ℕ → UInt8) (p n : ℕ) :
    wordSum (Ring.read mem p (2 * n)) = ∑ i ∈ Finset.range n, (wordAt mem p i).toNat := by
  induction n with
  | zero => rfl
  | succ n ih =>
    have hword : wordSum (Ring.read mem (p + 2 * n) 2) = (wordAt mem p n).toNat := rfl
    rw [Finset.sum_range_succ, ← ih, Nat.mul_add, Ring.read_add,
      wordSum_append _ (by rw [Ring.length_read]; exact even_two_mul n)]
    exact congrArg _ hword

/-- **Replacing a word** replaces it in the sum. -/
theorem wordSum_setWord (mem : ℕ → UInt8) (p : ℕ) (hi : i < n) (w : UInt16) :
    wordSum (Ring.read (setWord mem p i w) p (2 * n)) + (wordAt mem p i).toNat =
      wordSum (Ring.read mem p (2 * n)) + w.toNat := by
  have hmem : i ∈ Finset.range n := Finset.mem_range.2 hi
  have hother : ∀ j ∈ (Finset.range n).erase i,
      (wordAt (setWord mem p i w) p j).toNat = (wordAt mem p j).toNat := by
    intro j hj
    rw [wordAt_setWord, if_neg (Finset.ne_of_mem_erase hj)]
  rw [wordSum_read, wordSum_read, ← Finset.add_sum_erase _ _ hmem,
    ← Finset.add_sum_erase (Finset.range n) (fun j => (wordAt mem p j).toNat) hmem,
    Finset.sum_congr rfl hother, wordAt_setWord, if_pos rfl]
  omega

/-! ## What `ip_rx` rejects -/

/-- **`ip_rx` calls no handler**: it does the same whatever the handlers
do. -/
def CallsNone (h : Host) (ip : ℕ) : Prop := ∀ k k' : Handlers, ipRxTo k h ip = ipRxTo k' h ip

/-- A header that is not accepted is dropped. -/
theorem callsNone_of_not_accepted (hno : ¬ Accepted h.localIp h.mem ip) : CallsNone h ip := by
  intro k k'
  obtain ⟨hihl, hdst, -, -⟩ := clearCheck_header h.mem ip
  unfold ipRxTo
  simp only
  split
  · rfl
  · rename_i hsum
    split
    · rfl
    · rename_i hlt
      split
      · rfl
      · rename_i hother
        refine absurd ⟨by simpa using hsum, ?_, ?_⟩ hno
        · rw [← hihl]
          exact Nat.not_lt.mp fun hc => hlt (UInt8.lt_iff_toNat_lt.mpr hc)
        · rw [← hdst]
          by_contra hc
          exact hother ⟨fun h => hc (Or.inl h), fun h => hc (Or.inr h)⟩

/-- **When `ip_rx` calls no handler**: the header is not accepted, or no
handler is for its protocol. -/
theorem callsNone_iff (h : Host) (ip : ℕ) : CallsNone h ip ↔
    ¬ (Accepted h.localIp h.mem ip ∧ ∃ p : Proto, h.mem (ip + 9) = p.number) := by
  have hproto := (clearCheck_header h.mem ip).2.2.2
  constructor
  · rintro hnone ⟨haccept, p, hp⟩
    -- two sets of handlers that leave different hosts behind
    let keep : Handlers := ⟨fun h _ _ _ _ => h, fun h _ _ _ => h, fun h _ _ _ => h⟩
    let mark : Handlers := ⟨fun h _ _ _ _ => { h with wrapped := !h.wrapped },
      fun h _ _ _ => { h with wrapped := !h.wrapped }, fun h _ _ _ => { h with wrapped := !h.wrapped }⟩
    have hmem : (((h.summed ip).touch ip 1).touch (ip + 16) 4).mem (ip + 9) = p.number :=
      hproto.trans hp
    have heq := hnone keep mark
    rw [ipRxTo_accepted haccept, ipRxTo_accepted haccept, ipDispatchTo_eq hmem,
      ipDispatchTo_eq hmem] at heq
    have hflag := congrArg Host.wrapped heq
    cases p <;> exact absurd hflag.symm (Bool.not_ne_self _)
  · intro hno
    by_cases haccept : Accepted h.localIp h.mem ip
    · intro k k'
      have hother : ∀ p : Proto, h.mem (ip + 9) ≠ p.number := fun p hp => hno ⟨haccept, p, hp⟩
      have hdrop : ∀ k : Handlers,
          ipDispatchTo k (((h.summed ip).touch ip 1).touch (ip + 16) 4) ip (ihl h.mem ip) =
            (((h.summed ip).touch ip 1).touch (ip + 16) 4).atSwitch ip (ihl h.mem ip) := fun k =>
        (if_neg fun hc => hother .icmp (hproto.symm.trans hc)).trans
          ((if_neg fun hc => hother .tcp (hproto.symm.trans hc)).trans
            (if_neg fun hc => hother .udp (hproto.symm.trans hc)))
      rw [ipRxTo_accepted haccept, ipRxTo_accepted haccept, hdrop, hdrop]
    · exact callsNone_of_not_accepted haccept

/-! ## Headers that carry their checksum -/

/-- Blocks with one checksum have one residue. -/
theorem modEq_of_ipChecksum_eq {as bs : List UInt8} (ha : as.length ≤ 2 ^ 17 - 3)
    (hb : bs.length ≤ 2 ^ 17 - 3) (heq : ipChecksum as = ipChecksum bs) :
    wordSum as ≡ wordSum bs [MOD 65535] := by
  have hnum := congrArg UInt16.toNat heq
  have hfold : (foldSum (sumWords 0 as)).toNat = (foldSum (sumWords 0 bs)).toNat := by
    rw [ipChecksum, ipChecksum, toNat_complement, toNat_complement] at hnum
    have hla := foldSum_lt (sumWords 0 as)
    have hlb := foldSum_lt (sumWords 0 bs)
    omega
  have hsa := foldSum_modEq (sumWords 0 as)
  have hsb := foldSum_modEq (sumWords 0 bs)
  rw [toNat_sumWords_zero ha] at hsa
  rw [toNat_sumWords_zero hb, ← hfold] at hsb
  exact hsa.symm.trans hsb

/-- A header with its checksum in the check field. -/
def stamp (mem : ℕ → UInt8) (ip : ℕ) : ℕ → UInt8 :=
  setWord mem ip 5 (ipChecksum (Ring.read (clearCheck mem ip) ip 20))

theorem setWord_setWord (mem : ℕ → UInt8) (p i : ℕ) (v w : UInt16) :
    setWord (setWord mem p i v) p i w = setWord mem p i w := by
  rw [setWord_eq, setWord_eq, setWord_eq]
  funext x
  by_cases h1 : x = p + 2 * i + 1
  · rw [h1, Function.update_self, Function.update_self]
  · rw [Function.update_of_ne h1, Function.update_of_ne h1]
    by_cases h0 : x = p + 2 * i
    · rw [h0, Function.update_self, Function.update_self]
    · rw [Function.update_of_ne h0, Function.update_of_ne h0, Function.update_of_ne h1,
        Function.update_of_ne h0]

theorem setWord_comm {j : ℕ} (hij : i ≠ j) (mem : ℕ → UInt8) (p : ℕ) (v w : UInt16) :
    setWord (setWord mem p i v) p j w = setWord (setWord mem p j w) p i v := by
  simp only [setWord_eq]
  funext x
  simp only [Function.update_apply]
  split_ifs <;> first | rfl | omega

/-- What the check compares, in words. -/
theorem checksumOk_iff (mem : ℕ → UInt8) (ip : ℕ) : checksumOk mem ip = true ↔
    ipChecksum (Ring.read (setWord mem ip 5 0) ip 20) = wordAt mem ip 5 := by
  rw [checksumOk, beq_iff_eq, clearCheck_eq]
  rfl

/-- **A header that carries its checksum passes.** -/
theorem checksumOk_stamp (mem : ℕ → UInt8) (ip : ℕ) : checksumOk (stamp mem ip) ip = true := by
  rw [checksumOk_iff, stamp, setWord_setWord, wordAt_setWord, if_pos rfl, clearCheck_eq]

/-- **And not with another word in it**, unless that has the residue of
the one it replaces. -/
theorem checksumOk_stamp_setWord (mem : ℕ → UInt8) (ip : ℕ) (hi : i < 10) (h5 : i ≠ 5)
    (hok : checksumOk (setWord (stamp mem ip) ip i w) ip = true) :
    w.toNat ≡ (wordAt mem ip i).toNat [MOD 65535] := by
  have hclear : setWord (setWord (stamp mem ip) ip i w) ip 5 0 =
      setWord (setWord mem ip 5 0) ip i w := by
    rw [setWord_comm h5, stamp, setWord_setWord]
  have hfield : wordAt (setWord (stamp mem ip) ip i w) ip 5 =
      ipChecksum (Ring.read (setWord mem ip 5 0) ip 20) := by
    rw [wordAt_setWord, if_neg (Ne.symm h5), stamp, wordAt_setWord, if_pos rfl, clearCheck_eq]
  rw [checksumOk_iff, hclear, hfield] at hok
  have hmod := modEq_of_ipChecksum_eq (by rw [Ring.length_read]; decide)
    (by rw [Ring.length_read]; decide) hok
  have hsum := wordSum_setWord (setWord mem ip 5 0) ip hi w
  rw [wordAt_setWord, if_neg h5] at hsum
  have hfold : wordSum (Ring.read (setWord mem ip 5 0) ip (2 * 10)) + w.toNat ≡
      wordSum (Ring.read (setWord mem ip 5 0) ip (2 * 10)) + (wordAt mem ip i).toNat [MOD 65535] := by
    rw [← hsum]
    exact hmod.add_right _
  exact Nat.ModEq.add_left_cancel' _ hfold

/-- Storing the checksum leaves the fields that `ip_rx` reads. -/
theorem stamp_header (mem : ℕ → UInt8) (ip : ℕ) :
    ihl (stamp mem ip) ip = ihl mem ip ∧ field32 (stamp mem ip) (ip + 16) = field32 mem (ip + 16) ∧
      stamp mem ip (ip + 9) = mem (ip + 9) := by
  have hclear : clearCheck (stamp mem ip) ip = clearCheck mem ip := by
    rw [clearCheck_eq, clearCheck_eq, stamp, setWord_setWord]
  obtain ⟨hihl, hdst, -, hproto⟩ := clearCheck_header (stamp mem ip) ip
  obtain ⟨hihl', hdst', -, hproto'⟩ := clearCheck_header mem ip
  rw [hclear] at hihl hdst hproto
  exact ⟨hihl.symm.trans hihl', hdst.symm.trans hdst', hproto.symm.trans hproto'⟩

/-- **What `ip_rx` asks of a header apart from its sum**: the header has
its 20 bytes, and the packet is for this host and for a handler. -/
def ForHandler (h : Host) (ip : ℕ) : Prop :=
  20 ≤ (ihl h.mem ip).toNat ∧
    (field32 h.mem (ip + 16) = h.localIp ∨ field32 h.mem (ip + 16) = 0xFFFFFFFF) ∧
    ∃ p : Proto, h.mem (ip + 9) = p.number

/-- **A header that carries its checksum goes to its handler.** -/
theorem callsNone_stamp_iff (h : Host) (ip : ℕ) :
    CallsNone { h with mem := stamp h.mem ip } ip ↔ ¬ ForHandler h ip := by
  obtain ⟨hihl, hdst, hproto⟩ := stamp_header h.mem ip
  rw [callsNone_iff, Accepted]
  simp only [hihl, hdst, hproto, checksumOk_stamp, true_and, and_assoc]
  rfl

/-- **A segment that carries its checksum adds up to zero.** -/
theorem tcpChecksum_carried (src dst : UInt32) (tcp : Tcp.TcpHeader) (data : ℕ → UInt8)
    (len : UInt16) : Tcp.tcpChecksum src dst
      { tcp with checksum := Tcp.tcpChecksum src dst { tcp with checksum := 0 } data len } data len =
        0 := by
  have hones := (foldSum_summed_eq_ones_iff src src dst tcp data len).2 rfl
  rw [tcpChecksum_eq, hones]
  rfl

/-- A checksum of zero is a sum of all ones. -/
theorem sum_littleWords_of_ipChecksum_zero {bytes : List UInt8} (hlen : bytes.length ≤ 2 ^ 17 - 3)
    (hzero : ipChecksum bytes = 0) : OnesComplement.sum 65536 (littleWords bytes) = 0xFFFF := by
  have hnum := toNat_ipChecksum hlen
  have hlt : OnesComplement.sum 65536 (littleWords bytes) < 65536 := by
    rw [OnesComplement.sum_eq_reduce (by decide) littleWords_lt]
    exact OnesComplement.reduce_lt (by decide) _
  rw [hzero, show (0 : UInt16).toNat = 0 from rfl] at hnum
  omega

/-- **What a checksum catches.** A header that carries its own checksum
passes `ip_rx`, which calls a handler if the length, the address and the
protocol are right; with any one other word replaced by a word of another
residue it is dropped before a handler is called. The words of a segment
that carries its checksum and of its pseudo header have all ones for their
ones' complement sum, and `tcp_checksum` is zero. -/
theorem checksum_catches (h : Host) (ip : ℕ) :
    checksumOk (stamp h.mem ip) ip = true ∧
    (CallsNone { h with mem := stamp h.mem ip } ip ↔ ¬ ForHandler h ip) ∧
    (∀ i < 10, i ≠ 5 → ∀ w : UInt16, ¬ w.toNat ≡ (wordAt h.mem ip i).toNat [MOD 65535] →
      CallsNone { h with mem := setWord (stamp h.mem ip) ip i w } ip) ∧
    ∀ (src dst : UInt32) (tcp : Tcp.TcpHeader) (data : ℕ → UInt8) (len : UInt16),
      let carried :=
        { tcp with checksum := Tcp.tcpChecksum src dst { tcp with checksum := 0 } data len }
      OnesComplement.sum 65536 (littleWords (summed src dst carried data len)) = 0xFFFF ∧
        Tcp.tcpChecksum src dst carried data len = 0 := by
  refine ⟨checksumOk_stamp h.mem ip, callsNone_stamp_iff h ip, fun i hi h5 w hw => ?_,
    fun src dst tcp data len => ?_⟩
  · refine callsNone_of_not_accepted fun haccept => hw ?_
    exact checksumOk_stamp_setWord h.mem ip hi h5 haccept.1
  · intro carried
    have hzero : Tcp.tcpChecksum src dst carried data len = 0 :=
      tcpChecksum_carried src dst tcp data len
    have hlen := len.toNat_lt
    refine ⟨sum_littleWords_of_ipChecksum_zero ?_ ?_, hzero⟩
    · rw [length_summed]
      omega
    · rw [← hzero, tcpChecksum_eq, ipChecksum]

/-- A header for this host goes to the handler for UDP, and not when its
destination is replaced. -/
theorem checksum_catches_destination :
    let mem : ℕ → UInt8 := fun i => [0x45, 0, 0, 20, 0, 0, 0, 0, 64, 17, 0, 0, 10, 0, 2, 2, 10, 0, 2,
      15].getD i 0
    let h := Host.start mem 0x0A00020F [] (Tcp.tcpInit (fun _ => .zero) none)
    ¬ CallsNone { h with mem := stamp mem 0 } 0 ∧
      wordAt mem 0 9 = 0x0F02 ∧ CallsNone { h with mem := setWord (stamp mem 0) 0 9 0x1002 } 0 := by
  intro mem h
  obtain ⟨-, hcalls, hdrops, -⟩ := checksum_catches h 0
  have hours : ForHandler h 0 := ⟨by decide, Or.inl (by decide), .udp, by decide⟩
  exact ⟨fun hnone => hcalls.1 hnone hours, by decide,
    hdrops 9 (by decide) (by decide) 0x1002 (by decide)⟩

end Net

end Kos
