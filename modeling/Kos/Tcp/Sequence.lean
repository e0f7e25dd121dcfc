import Kos.Tcp.Handshake
import Kos.Tcp.Steps
import Mathlib.Data.List.Chain
/-!
# Tcp — the sequence numbers of what a socket sends

A segment takes one number for each byte and one each for SYN and FIN,
and the next segment should start where it ends. `tcp_tx` moves
`snd_nxt` by that, but for a SYN that is also an ACK it does not count
the SYN; and `tcp_connect` starts again at the initial number. Runs that
do neither are contiguous: `Ledger.Careful` is what they keep to.
-/

namespace Kos

namespace Tcp

/-- The sequence number after a segment. -/
def Packet.next (p : Packet) : UInt32 :=
  p.tcp.seq + UInt32.ofNat p.data.length + (if hasFlag p.tcp.flags tcpSyn then 1 else 0) +
    if hasFlag p.tcp.flags tcpFin then 1 else 0

/-- **Each segment starts where the one before it ends.** -/
def Contiguous (log : List Packet) : Prop := log.IsChain fun p q => q.tcp.seq = p.next

/-- The answer to a SYN. -/
def Packet.IsSynAck (p : Packet) : Prop :=
  hasFlag p.tcp.flags tcpSyn = true ∧ hasFlag p.tcp.flags tcpAck = true

instance Packet.IsSynAck.decidable (p : Packet) : Decidable p.IsSynAck :=
  inferInstanceAs (Decidable (hasFlag p.tcp.flags tcpSyn = true ∧ hasFlag p.tcp.flags tcpAck = true))

instance Contiguous.decidable (log : List Packet) : Decidable (Contiguous log) :=
  inferInstanceAs (Decidable (log.IsChain fun p q => q.tcp.seq = p.next))

/-- The socket a call sends for, if it sends. -/
def Stack.sender (t : Stack) (c : Call) : Option ℕ :=
  match c.op with
  | .connect sock _ _ => some sock
  | .send sock _ _ => some sock
  | .close sock => some sock
  | .rx tcp _ _ =>
    (t.lookup tcp.dstPort tcp.srcPort).map fun sock =>
      if (t.heap sock).state = .listen then (kmalloc (t.given c.mem)).1.addr else sock
  | _ => none

/-- The stack, and the segments of one socket so far. -/
structure Ledger where
  stack : Stack
  log : List Packet

/-- The segments a call sends for a socket. -/
def Stack.sends (t : Stack) (sock : ℕ) (c : Call) : List Packet :=
  if t.sender c = some sock then sentSince t (t.step c) else []

/-- One call. A socket that is not in the list has sent nothing. -/
def Ledger.step (sock : ℕ) (l : Ledger) (c : Call) : Ledger :=
  ⟨l.stack.step c,
    if sock ∈ (l.stack.step c).sockets then l.log ++ l.stack.sends sock c else []⟩

/-- The call makes the socket send, other than by connecting. -/
def Stack.Speaks (t : Stack) (sock : ℕ) : Op → Prop
  | .send x data len =>
    x = sock ∧ (t.heap sock).state = .established ∧ data.addr ≠ 0 ∧ len ≠ 0
  | .close x =>
    x = sock ∧ ((t.heap sock).state = .established ∨ (t.heap sock).state = .closeWait)
  | .rx tcp _ len =>
    t.lookup tcp.dstPort tcp.srcPort = some sock ∧
      (((t.heap sock).state = .synSent ∧ hasFlag tcp.flags tcpSyn = true ∧
          hasFlag tcp.flags tcpAck = true ∧ tcp.ack = (t.heap sock).sndUna + 1) ∨
        ((t.heap sock).state = .established ∧
          ((0 < len ∧ tcp.seq = (t.heap sock).rcvNxt) ∨ hasFlag tcp.flags tcpFin = true)))
  | _ => False

/-- **What contiguous runs keep to**: a socket connects only if it has
sent nothing, or if that ended at the initial number; and nothing is
sent after the answer to a SYN. -/
def Ledger.Careful (sock : ℕ) (l : Ledger) (c : Call) : Prop :=
  match c.op with
  | .connect x _ _ =>
    x = sock → (l.stack.heap sock).state = .closed →
      ∀ p ∈ l.log.getLast?, p.next = l.stack.tcpSeqNum + 1
  | op => l.stack.Speaks sock op → ∀ p ∈ l.log.getLast?, ¬ p.IsSynAck

variable {t t' : Stack} {sock : ℕ} {c : Call} {tcp : TcpHeader} {payload data : ℕ → UInt8}
  {len : UInt16} {flags : UInt8} {x y z : UInt32} {ps qs : List Packet} {p : Packet}

/-! ## Segments in a row -/

/-- Segments sent one after another, from one number to another. -/
def Transmitted : UInt32 → List Packet → UInt32 → Prop
  | x, [], y => y = x
  | x, p :: ps, y => p.tcp.seq = x ∧ Transmitted p.next ps y

theorem Transmitted.append (h : Transmitted x ps y) (h' : Transmitted y qs z) :
    Transmitted x (ps ++ qs) z := by
  induction ps generalizing x with
  | nil =>
    obtain rfl : y = x := h
    exact h'
  | cons p ps ih => exact ⟨h.1, ih h.2⟩

/-- **A log ends at a number**: it is contiguous, and the next segment is
due there. The answer to a SYN ends nowhere. -/
structure EndsAt (log : List Packet) (x : UInt32) : Prop where
  chain : Contiguous log
  last : ∀ p ∈ log.getLast?, ¬ p.IsSynAck → p.next = x

theorem EndsAt.nil (x : UInt32) : EndsAt [] x :=
  ⟨List.isChain_nil, fun p hp => absurd hp (Option.not_mem_none p)⟩

theorem EndsAt.append {log : List Packet} (h : EndsAt log x)
    (hlast : ps ≠ [] → ∀ p ∈ log.getLast?, p.next = x) (hps : Transmitted x ps y) :
    EndsAt (log ++ ps) y := by
  induction ps generalizing log x with
  | nil =>
    obtain rfl : y = x := hps
    rw [List.append_nil]
    exact h
  | cons p ps ih =>
    obtain ⟨hseq, hrest⟩ := hps
    have hend : ∀ q ∈ (log ++ [p]).getLast?, q.next = p.next := by
      intro q hq
      rw [List.getLast?_concat] at hq
      rw [Option.mem_some_iff.mp hq]
    rw [List.append_cons]
    refine ih ⟨?_, fun q hq _ => hend q hq⟩ (fun _ => hend) hrest
    refine h.chain.append (List.isChain_singleton p) fun q hq r hr => ?_
    rw [List.head?_singleton] at hr
    rw [← Option.mem_some_iff.mp hr, hseq, hlast (List.cons_ne_nil _ _) q hq]

/-- **The segments sent between two states**, for one socket. -/
def Sent (sock : ℕ) (t t' : Stack) (ps : List Packet) : Prop :=
  t'.sent = t.sent ++ ps ∧ Transmitted (t.heap sock).sndNxt ps (t'.heap sock).sndNxt

theorem Sent.nil (hsent : t'.sent = t.sent) (hnxt : (t'.heap sock).sndNxt = (t.heap sock).sndNxt) :
    Sent sock t t' [] :=
  ⟨by rw [hsent, List.append_nil], hnxt⟩

theorem Sent.trans {t'' : Stack} (h : Sent sock t t' ps) (h' : Sent sock t' t'' qs) :
    Sent sock t t'' (ps ++ qs) :=
  ⟨by rw [h'.1, h.1, List.append_assoc], h.2.append h'.2⟩

/-- What `tcp_tx` adds to `snd_nxt` is what the segment takes, unless it
answers a SYN. -/
theorem advance_eq (h : ¬ (hasFlag flags tcpSyn = true ∧ hasFlag flags tcpAck = true)) (len : UInt16)
    (x : UInt32) : advance flags len x = x + len.toUInt32 +
      (if hasFlag flags tcpSyn then 1 else 0) + if hasFlag flags tcpFin then 1 else 0 := by
  have hlen : ∀ y : UInt32, (if len ≠ 0 then y + len.toUInt32 else y) = y + len.toUInt32 := by
    intro y
    split
    · rfl
    · rename_i hzero
      rw [not_not.mp hzero]
      exact (UInt32.add_zero y).symm
  have hcond : (hasFlag flags tcpSyn && !hasFlag flags tcpAck) = hasFlag flags tcpSyn := by
    cases hs : hasFlag flags tcpSyn with
    | false => rfl
    | true =>
      cases ha : hasFlag flags tcpAck with
      | false => rfl
      | true => exact absurd ⟨hs, ha⟩ h
  simp only [advance, hcond, hlen]
  have hswap : ∀ y : UInt32, y + 1 + len.toUInt32 = y + len.toUInt32 + 1 := by
    intro y
    ac_rfl
  cases hasFlag flags tcpSyn <;> cases hasFlag flags tcpFin <;> simp [hswap]

/-- **`tcp_tx` sends at `snd_nxt` and moves it past the segment**, unless
the segment answers a SYN. -/
theorem tcpTx_sends (t : Stack) (sock : ℕ) (flags : UInt8) (data : ℕ → UInt8) (len : UInt16)
    (h : ¬ (hasFlag flags tcpSyn = true ∧ hasFlag flags tcpAck = true)) :
    ∃ ps, Sent sock t (tcpTx t sock flags data len) ps := by
  rcases tcpTx_cases t sock flags data len with ⟨hheap, hsent⟩ | ⟨hheap, p, hsent, htcp, hdata⟩
  · exact ⟨[], .nil hsent (by rw [hheap])⟩
  · have hseq : p.tcp.seq = (t.heap sock).sndNxt := by rw [htcp]; rfl
    have hflags : p.tcp.flags = flags := by rw [htcp]; rfl
    have hlen : UInt32.ofNat p.data.length = len.toUInt32 := by
      rw [hdata, Ring.length_read]
      exact UInt32.ofNat_uInt16ToNat len
    refine ⟨[p], hsent, hseq, ?_⟩
    change ((tcpTx t sock flags data len).heap sock).sndNxt = p.next
    rw [hheap, Function.update_self, Packet.next, hseq, hflags, hlen]
    exact advance_eq h len _

/-! ## One call -/

/-- No data and no flags but an acknowledgement: the segments of
`tcp_rx` on an open connection. -/
theorem ack_not_synAck :
    ¬ (hasFlag tcpAck tcpSyn = true ∧ hasFlag tcpAck tcpAck = true) := by decide

/-- An established connection acknowledges data and the end of them. -/
theorem rxEstablished_sends (t : Stack) (sock : ℕ) (tcp : TcpHeader) (payload : ℕ → UInt8)
    (len : UInt16) :
    ∃ ps, Sent sock t (rxEstablished t sock tcp payload len) ps ∧
      (¬ ((0 < len ∧ tcp.seq = (t.heap sock).rcvNxt) ∨ hasFlag tcp.flags tcpFin = true) → ps = []) := by
  have hack : ∀ t : Stack, ∃ t₁, (if hasFlag tcp.flags tcpAck then
      t.modify sock fun s => { s with sndUna := tcp.ack } else t) = t₁ ∧ Sent sock t t₁ [] ∧
      (t₁.heap sock).rcvNxt = (t.heap sock).rcvNxt := by
    intro t
    split
    · refine ⟨_, rfl, .nil rfl ?_, ?_⟩ <;> rw [modify_heap, Function.update_self]
    · exact ⟨_, rfl, .nil rfl rfl, rfl⟩
  have hdata : ∀ t : Stack, ∃ t₁ ps, (if 0 < len then if tcp.seq = (t.heap sock).rcvNxt then
      tcpTx (t.modify sock fun s => s.store payload len) sock tcpAck noData 0 else t else t) = t₁ ∧
      Sent sock t t₁ ps ∧ (¬ (0 < len ∧ tcp.seq = (t.heap sock).rcvNxt) → ps = []) := by
    intro t
    split
    · rename_i hpos
      split
      · rename_i hseq
        obtain ⟨ps, hps⟩ := tcpTx_sends (t.modify sock fun s => s.store payload len) sock tcpAck
          noData 0 ack_not_synAck
        have hstore : Sent sock t (t.modify sock fun s => s.store payload len) [] :=
          .nil rfl (by rw [modify_heap, Function.update_self, (store_local ..).2])
        exact ⟨_, ps, rfl, hstore.trans hps, fun hno => absurd ⟨hpos, hseq⟩ hno⟩
      · exact ⟨_, [], rfl, .nil rfl rfl, fun _ => rfl⟩
    · exact ⟨_, [], rfl, .nil rfl rfl, fun _ => rfl⟩
  have hfin : ∀ t : Stack, ∃ ps, Sent sock t (if hasFlag tcp.flags tcpFin then
      tcpTx (t.modify sock fun s => { s with state := .closeWait, rcvNxt := s.rcvNxt + 1 }) sock
        tcpAck noData 0 else t) ps ∧ (¬ hasFlag tcp.flags tcpFin = true → ps = []) := by
    intro t
    split
    · rename_i hfin
      obtain ⟨ps, hps⟩ := tcpTx_sends
        (t.modify sock fun s => { s with state := .closeWait, rcvNxt := s.rcvNxt + 1 }) sock tcpAck
        noData 0 ack_not_synAck
      have hset : Sent sock t
          (t.modify sock fun s => { s with state := .closeWait, rcvNxt := s.rcvNxt + 1 }) [] :=
        .nil rfl (by rw [modify_heap, Function.update_self])
      exact ⟨ps, hset.trans hps, fun hno => absurd hfin hno⟩
    · exact ⟨[], .nil rfl rfl, fun _ => rfl⟩
  obtain ⟨t₁, h₁, hsent₁, hrcv⟩ := hack t
  obtain ⟨t₂, ps₂, h₂, hsent₂, hnil₂⟩ := hdata t₁
  obtain ⟨ps₃, hsent₃, hnil₃⟩ := hfin t₂
  refine ⟨ps₂ ++ ps₃, ?_, fun hno => ?_⟩
  · simp only [rxEstablished]
    rw [h₁, h₂]
    exact (hsent₁.trans hsent₂).trans hsent₃
  · rw [not_or] at hno
    rw [hnil₂ (by rw [hrcv]; exact hno.1), hnil₃ hno.2]
    rfl

/-- **A segment makes the socket it finds send**, if that is due. -/
theorem tcpRx_sends (payload : ℕ → UInt8) (len : UInt16)
    (h : t.lookup tcp.dstPort tcp.srcPort = some sock) (hs : (t.heap sock).state ≠ .listen) :
    ∃ ps, Sent sock t (tcpRx t tcp payload len) ps ∧
      (¬ t.Speaks sock (.rx tcp payload len) → ps = []) := by
  have honAck : ∀ state, Sent sock t (rxOnAck t sock tcp state) [] := by
    intro state
    unfold rxOnAck
    split
    · exact .nil rfl (by rw [modify_heap, Function.update_self])
    · exact .nil rfl rfl
  unfold tcpRx
  rw [h]
  simp only
  cases hstate : (t.heap sock).state with
  | listen => exact absurd hstate hs
  | synSent =>
    simp only [rxSynSent]
    split
    · rename_i hflags
      rw [Bool.and_eq_true] at hflags
      split
      · rename_i hack
        obtain ⟨ps, hps⟩ := tcpTx_sends (t.modify sock fun s =>
          { s with state := .established, rcvNxt := tcp.seq + 1, sndUna := tcp.ack }) sock tcpAck
          noData 0 ack_not_synAck
        have hset : Sent sock t (t.modify sock fun s =>
            { s with state := .established, rcvNxt := tcp.seq + 1, sndUna := tcp.ack }) [] :=
          .nil rfl (by rw [modify_heap, Function.update_self])
        refine ⟨ps, hset.trans hps, fun hno => absurd ?_ hno⟩
        exact ⟨h, Or.inl ⟨hstate, hflags.1, hflags.2, hack⟩⟩
      · exact ⟨[], .nil rfl rfl, fun _ => rfl⟩
    · exact ⟨[], .nil rfl rfl, fun _ => rfl⟩
  | established =>
    obtain ⟨ps, hps, hnil⟩ := rxEstablished_sends t sock tcp payload len
    exact ⟨ps, hps, fun hno => hnil fun hc => hno ⟨h, Or.inr ⟨hstate, hc⟩⟩⟩
  | synRecv => exact ⟨[], honAck _, fun _ => rfl⟩
  | closeWait => exact ⟨[], honAck _, fun _ => rfl⟩
  | lastAck => exact ⟨[], honAck _, fun _ => rfl⟩
  | _ => exact ⟨[], .nil rfl rfl, fun _ => rfl⟩

/-- `tcp_send` sends what it is given. -/
theorem tcpSend_sends (t : Stack) (sock : ℕ) (data : Block) (len : UInt16) :
    ∃ ps, Sent sock t (tcpSend t sock data len).2 ps ∧
      (¬ t.Speaks sock (.send sock data len) → ps = []) := by
  simp only [tcpSend]
  split
  · exact ⟨[], .nil rfl rfl, fun _ => rfl⟩
  · rename_i hopen
    split
    · exact ⟨[], .nil rfl rfl, fun _ => rfl⟩
    · rename_i hdata
      rw [not_or, not_not] at hopen
      rw [not_or] at hdata
      obtain ⟨ps, hps⟩ := tcpTx_sends t sock (tcpAck ||| tcpPsh) data.bytes len (by decide)
      exact ⟨ps, hps, fun hno => absurd ⟨rfl, hopen.2, hdata⟩ hno⟩

/-- `tcp_close` sends a FIN on an open connection. -/
theorem tcpClose_sends (t : Stack) (sock : ℕ) :
    ∃ ps, Sent sock t (tcpClose t sock) ps ∧ (¬ t.Speaks sock (.close sock) → ps = []) := by
  have hset : ∀ state, Sent sock t (t.modify sock fun s => { s with state := state }) [] := by
    intro state
    exact .nil rfl (by rw [modify_heap, Function.update_self])
  have hfin : ∀ state, t.Speaks sock (.close sock) → ∃ ps, Sent sock t (tcpTx (t.modify sock fun s =>
      { s with state := state }) sock (tcpFin ||| tcpAck) noData 0) ps ∧
      (¬ t.Speaks sock (.close sock) → ps = []) := by
    intro state hdue
    obtain ⟨ps, hps⟩ := tcpTx_sends (t.modify sock fun s => { s with state := state }) sock
      (tcpFin ||| tcpAck) noData 0 (by decide)
    exact ⟨ps, (hset state).trans hps, fun hno => absurd hdue hno⟩
  unfold tcpClose
  split
  · exact ⟨[], .nil rfl rfl, fun _ => rfl⟩
  · cases hs : (t.heap sock).state with
    | established => exact hfin _ ⟨rfl, Or.inl hs⟩
    | closeWait => exact hfin _ ⟨rfl, Or.inr hs⟩
    | synSent => exact ⟨[], hset _, fun _ => rfl⟩
    | synRecv => exact ⟨[], hset _, fun _ => rfl⟩
    | closed => exact ⟨[], hset _, fun _ => rfl⟩
    | _ => exact ⟨[], .nil rfl rfl, fun _ => rfl⟩

/-- `tcp_connect` sends a SYN at the initial number. -/
theorem tcpConnect_sends (t : Stack) (sock : ℕ) (addr : UInt32) (port : UInt16) :
    let r := (tcpConnect t sock addr port).2
    Sent sock t r [] ∨ ((t.heap sock).state = .closed ∧
      ∃ ps, r.sent = t.sent ++ ps ∧ Transmitted (t.tcpSeqNum + 1) ps (r.heap sock).sndNxt) := by
  intro r
  by_cases hopen : sock = 0 ∨ (t.heap sock).state ≠ .closed
  · have hno : r = t := congrArg Prod.snd (if_pos hopen)
    rw [hno]
    exact Or.inl (.nil rfl rfl)
  · rw [not_or, not_not] at hopen
    obtain ⟨t₁, heq, hwrote, -, hnxt⟩ := tcpConnect_eq addr port hopen.1 hopen.2
    obtain ⟨ps, hsent, htr⟩ := tcpTx_sends t₁ sock tcpSyn noData 0 (by decide)
    rw [← heq] at hsent htr
    rw [hwrote.sent] at hsent
    rw [hnxt] at htr
    exact Or.inr ⟨hopen.2, ps, hsent, htr⟩

theorem tick_sndNxt (n : ℕ) (s : Socket) : (Socket.tick^[n] s).sndNxt = s.sndNxt := by
  obtain ⟨state, timer, heq, -⟩ := tick_iterate n s
  rw [heq]

/-- A call that sends for others leaves `snd_nxt` alone. -/
theorem Moves.sndNxt {s : Socket} (h : Moves t sock c.op s) (hother : t.sender c ≠ some sock) :
    s.sndNxt = (t.heap sock).sndNxt := by
  obtain ⟨op, mem⟩ := c
  cases h with
  | same => rfl
  | bind => rfl
  | listen => rfl
  | connect => exact absurd rfl hother
  | send => exact absurd rfl hother
  | recv => rfl
  | close => exact absurd rfl hother
  | tick n => exact tick_sndNxt n _
  | rx tcp payload len hfound hs =>
    refine absurd ?_ hother
    simp only [Stack.sender, hfound, Option.map_some, if_neg hs]

theorem sends_eq (h : t.sender c = some sock) (hsent : (t.step c).sent = t.sent ++ ps) :
    t.sends sock c = ps := by
  rw [Stack.sends, if_pos h, sentSince, hsent]
  exact List.drop_left ..

/-- **What a call sends for a socket of the list**: nothing, a SYN at the
initial number, or what is due at `snd_nxt`. -/
theorem step_sends (h : Fresh t c) (hin : sock ∈ t.sockets) :
    (t.sends sock c = [] ∧ ((t.step c).heap sock).sndNxt = (t.heap sock).sndNxt) ∨
      (∃ addr port, c.op = .connect sock addr port ∧ (t.heap sock).state = .closed ∧
        Transmitted (t.tcpSeqNum + 1) (t.sends sock c) ((t.step c).heap sock).sndNxt) ∨
      (t.Speaks sock c.op ∧
        Transmitted (t.heap sock).sndNxt (t.sends sock c) ((t.step c).heap sock).sndNxt) := by
  by_cases hsender : t.sender c = some sock
  · have hquiet : Sent sock (t.given c.mem) (t.step c) [] →
        t.sends sock c = [] ∧ ((t.step c).heap sock).sndNxt = (t.heap sock).sndNxt :=
      fun hsent => ⟨sends_eq hsender hsent.1, hsent.2⟩
    -- what is sent is due, or there is nothing of it
    have hdue : (∃ ps, Sent sock (t.given c.mem) (t.step c) ps ∧ (¬ t.Speaks sock c.op → ps = [])) →
        (t.sends sock c = [] ∧ ((t.step c).heap sock).sndNxt = (t.heap sock).sndNxt) ∨
          (t.Speaks sock c.op ∧ Transmitted (t.heap sock).sndNxt (t.sends sock c)
            ((t.step c).heap sock).sndNxt) := by
      rintro ⟨ps, hsent, hnil⟩
      by_cases hspeaks : t.Speaks sock c.op
      · rw [sends_eq hsender hsent.1]
        exact Or.inr ⟨hspeaks, hsent.2⟩
      · rw [hnil hspeaks] at hsent
        exact Or.inl (hquiet hsent)
    obtain ⟨op, mem⟩ := c
    cases op with
    | connect x addr port =>
      obtain rfl : x = sock := Option.some.inj hsender
      rcases tcpConnect_sends (t.given mem) x addr port with hsent | ⟨hstate, ps, hsent, htr⟩
      · exact Or.inl (hquiet hsent)
      · refine Or.inr (Or.inl ⟨addr, port, rfl, hstate, ?_⟩)
        rw [sends_eq hsender hsent]
        exact htr
    | send x data len =>
      obtain rfl : x = sock := Option.some.inj hsender
      exact (hdue (tcpSend_sends (t.given mem) x data len)).imp_right Or.inr
    | close x =>
      obtain rfl : x = sock := Option.some.inj hsender
      exact (hdue (tcpClose_sends (t.given mem) x)).imp_right Or.inr
    | rx tcp payload len =>
      cases hfound : t.lookup tcp.dstPort tcp.srcPort with
      | none =>
        simp only [Stack.sender, hfound] at hsender
        exact absurd hsender.symm (Option.some_ne_none sock)
      | some x =>
        simp only [Stack.sender, hfound, Option.map_some] at hsender
        split at hsender
        · rename_i hlisten
          -- the new socket is not in the list, or there is none
          refine Or.inl (hquiet ?_)
          simp only [Stack.step]
          rw [tcpRx_listen (t := t.given mem) hfound hlisten]
          rcases rxListen_cases (t.given mem) x tcp with ⟨-, hheap, -, hsent⟩ | ⟨⟨-, haddr⟩, -⟩
          · exact .nil hsent (by rw [hheap])
          · exact absurd (Option.some.inj hsender) (h.ne hin haddr)
        · rename_i hlisten
          obtain rfl : x = sock := Option.some.inj hsender
          exact (hdue (tcpRx_sends (t := t.given mem) payload len hfound hlisten)).imp_right Or.inr
    | _ => exact absurd hsender.symm (Option.some_ne_none sock)
  · refine Or.inl ⟨?_, (step_moves h hin).sndNxt hsender⟩
    rw [Stack.sends, if_neg hsender]

/-- **What is sent for a new socket** is the answer to a SYN. -/
theorem step_created_sends (hnew : sock ∉ t.sockets) (hin : sock ∈ (t.step c).sockets) :
    t.sends sock c = [] ∨ ∃ p, t.sends sock c = [p] ∧ p.IsSynAck := by
  by_cases hsender : t.sender c = some sock
  · obtain ⟨op, mem⟩ := c
    obtain ⟨-, -, -, -, hop⟩ := step_created hnew hin
    rcases hop with hop | ⟨tcp, payload, len, hop⟩
    · simp only at hop
      rw [hop] at hsender
      exact absurd hsender.symm (Option.some_ne_none sock)
    · simp only at hop
      subst hop
      cases hfound : t.lookup tcp.dstPort tcp.srcPort with
      | none =>
        simp only [Stack.sender, hfound] at hsender
        exact absurd hsender.symm (Option.some_ne_none sock)
      | some x =>
        have hx : x ∈ t.sockets := List.mem_of_find?_eq_some hfound
        by_cases hlisten : (t.heap x).state = .listen
        · have hstep : t.step ⟨.rx tcp payload len, mem⟩ = rxListen (t.given mem) x tcp :=
            tcpRx_listen (t := t.given mem) hfound hlisten
          rcases rxListen_cases (t.given mem) x tcp with ⟨-, -, -, hsent⟩ |
            ⟨-, -, -, hsent | ⟨p, hsent, hflags, -⟩⟩
          · exact Or.inl (sends_eq hsender (by rw [hstep, hsent, List.append_nil]; rfl))
          · exact Or.inl (sends_eq hsender (by rw [hstep, hsent, List.append_nil]; rfl))
          · refine Or.inr ⟨p, sends_eq hsender (by rw [hstep, hsent]; rfl), ?_⟩
            rw [Packet.IsSynAck, hflags]
            decide
        · simp only [Stack.sender, hfound, Option.map_some, if_neg hlisten] at hsender
          rw [Option.some.inj hsender] at hx
          exact absurd hx hnew
  · exact Or.inl (if_neg hsender)

/-! ## Every run -/

/-- **The invariant of a ledger.** -/
structure Ledger.Inv (sock : ℕ) (l : Ledger) : Prop where
  ends : EndsAt l.log (l.stack.heap sock).sndNxt
  outside : sock ∉ l.stack.sockets → l.log = []

/-- **A careful call keeps the invariant.** -/
theorem Ledger.Inv.step {l : Ledger} (h : l.Inv sock) (hfresh : Fresh l.stack c)
    (hcare : l.Careful sock c) : (l.step sock c).Inv sock := by
  by_cases hin' : sock ∈ (l.stack.step c).sockets
  · have hlog : (l.step sock c).log = l.log ++ l.stack.sends sock c := if_pos hin'
    refine ⟨?_, fun hout => absurd hin' hout⟩
    rw [hlog]
    change EndsAt _ ((l.stack.step c).heap sock).sndNxt
    by_cases hin : sock ∈ l.stack.sockets
    · rcases step_sends hfresh hin with ⟨hnil, hnxt⟩ | ⟨addr, port, hop, hstate, htr⟩ | ⟨hdue, htr⟩
      · rw [hnil, hnxt, List.append_nil]
        exact h.ends
      · -- a SYN, at the number where the segments before it end
        have hend : ∀ p ∈ l.log.getLast?, p.next = l.stack.tcpSeqNum + 1 := by
          rw [Ledger.Careful, hop] at hcare
          exact hcare rfl hstate
        have hends : EndsAt l.log (l.stack.tcpSeqNum + 1) := ⟨h.ends.chain, fun p hp _ => hend p hp⟩
        exact hends.append (fun _ => hend) htr
      · have hsyn : ∀ p ∈ l.log.getLast?, ¬ p.IsSynAck := by
          cases hop : c.op with
          | connect x addr port =>
            rw [hop] at hdue
            exact absurd hdue id
          | _ =>
            rw [Ledger.Careful, hop] at hcare
            rw [hop] at hdue
            exact hcare hdue
        exact h.ends.append (fun _ p hp => h.ends.last p hp (hsyn p hp)) htr
    · rw [h.outside hin, List.nil_append]
      rcases step_created_sends hin hin' with hnil | ⟨p, hone, hsyn⟩
      · rw [hnil]
        exact .nil _
      · rw [hone]
        refine ⟨List.isChain_singleton p, fun q hq hno => absurd ?_ hno⟩
        rw [List.getLast?_singleton] at hq
        rw [← Option.mem_some_iff.mp hq]
        exact hsyn
  · have hlog : (l.step sock c).log = [] := if_neg hin'
    refine ⟨?_, fun _ => hlog⟩
    rw [hlog]
    exact .nil _

/-- **Careful runs are contiguous.** Whatever else is called, and
whatever segments arrive: what a socket sends starts where the segment
before it ended, in every state of the run. -/
theorem careful_contiguous {heap : ℕ → Socket} {device : Option UInt32} {calls : List Call}
    (h : Allowed (Ledger.step sock) (fun l c => Fresh l.stack c ∧ l.Careful sock c)
      ⟨tcpInit heap device, []⟩ calls) (n : ℕ) :
    Contiguous (runFrom (Ledger.step sock) ⟨tcpInit heap device, []⟩ (calls.take n)).log := by
  have hinv := (h.take n).invariant (P := Ledger.Inv sock)
    (fun l c hl hc => hl.step hc.1 hc.2) ⟨.nil _, fun _ => rfl⟩
  exact hinv.ends.chain

/-- A connection that is opened, carries three bytes and is closed: a
SYN, an acknowledgement, the data and a FIN. -/
theorem careful_contiguous_active :
    let blocks (l : List ℕ) : List Block := l.map fun a => ⟨a, noData⟩
    let calls : List Call :=
      [⟨.socket, blocks [1, 2, 3]⟩, ⟨.connect 1 0xC0A80005 80, blocks [4]⟩,
        ⟨.rx ⟨80, 49152, 1000, 0x12345679, 5, tcpSyn ||| tcpAck, 0, 0, 0⟩ noData 0, blocks [4]⟩,
        ⟨.send 1 ⟨9, noData⟩ 3, blocks [4]⟩, ⟨.close 1, blocks [4]⟩]
    let l := runFrom (Ledger.step 1) ⟨tcpInit (fun _ => Socket.zero) none, []⟩ (calls.take 5)
    Contiguous l.log ∧ l.log.map (fun p => p.tcp.seq) =
      [0x12345679, 0x1234567A, 0x1234567A, 0x1234567D] := by
  refine ⟨careful_contiguous ?_ 5, by decide +kernel⟩
  refine ⟨⟨by decide, fun hc => hc.elim⟩, ⟨by decide +kernel, fun _ _ => by decide +kernel⟩,
    ⟨by decide +kernel, fun _ => by decide +kernel⟩, ⟨by decide +kernel, fun _ => by decide +kernel⟩,
    ⟨by decide +kernel, fun _ => by decide +kernel⟩, trivial⟩

/-- A connection that is accepted and sends three bytes: they are sent
with the number of the answer to the SYN. -/
theorem accepted_not_contiguous :
    let blocks (l : List ℕ) : List Block := l.map fun a => ⟨a, noData⟩
    let calls : List Call :=
      [⟨.socket, blocks [1, 2, 3]⟩, ⟨.bind 1 0xC0A80001 80, []⟩, ⟨.listen 1, []⟩,
        ⟨.rx ⟨5000, 80, 1000, 0, 5, tcpSyn, 0, 0, 0⟩ noData 0, blocks [4, 5, 6, 7]⟩,
        ⟨.rx ⟨5000, 80, 1001, 1, 5, tcpAck, 0, 0, 0⟩ noData 0, []⟩,
        ⟨.send 4 ⟨9, noData⟩ 3, blocks [8]⟩]
    let l := runFrom (Ledger.step 4) ⟨tcpInit (fun _ => Socket.zero) none, []⟩ calls
    Allowed Stack.step Fresh (tcpInit (fun _ => Socket.zero) none) calls ∧
      l.log.map (fun p => p.tcp.seq) = [0, 0] ∧ ¬ Contiguous l.log := by
  decide +kernel

end Tcp

end Kos
