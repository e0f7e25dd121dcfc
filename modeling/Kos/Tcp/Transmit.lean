import Kos.Tcp.Sequence
import Kos.Tcp.Stream
/-!
# Tcp — the stream on its way out

`tcp_send` has no buffer: each call makes one segment of its bytes, or
none at all where there is no memory for the packet. From the time a
socket is established until it is closed, the segments it sends are the
bytes of these calls, each at the place in the sequence space that its
bytes have in the stream, between acknowledgements that carry nothing
and before a FIN that ends it, whatever arrives meanwhile and whatever
other sockets do.
-/

namespace Kos

namespace Tcp

variable {t t' : Stack} {sock : ℕ} {c : Call} {tcp : TcpHeader} {payload data : ℕ → UInt8}
  {len : UInt16} {flags : UInt8} {s s' : Socket} {p : Packet} {ps : List Packet} {x y : UInt32}

/-- The states between the handshake and the end of a connection. -/
def Socket.Open (s : Socket) : Prop :=
  s.state = .established ∨ s.state = .closeWait ∨ s.state = .finWait1 ∨ s.state = .lastAck

/-- The states in which a socket may still send. -/
def Socket.MaySend (s : Socket) : Prop := s.state = .established ∨ s.state = .closeWait

/-- A segment from one socket, neither the first of its connection nor an
answer to that. -/
structure Packet.From (s : Socket) (p : Packet) : Prop where
  srcPort : p.tcp.srcPort = s.localPort
  dstPort : p.tcp.dstPort = s.remotePort
  syn : hasFlag p.tcp.flags tcpSyn = false

/-- A segment that carries nothing. -/
structure Packet.IsAck (s : Socket) (p : Packet) : Prop extends Packet.From s p where
  data : p.data = []
  fin : hasFlag p.tcp.flags tcpFin = false

/-- The bytes a call makes a segment of: those of a `tcp_send` that got a
buffer. Without one the bytes are dropped, and `tcp_send` says they went. -/
def Stack.writes (t : Stack) (sock : ℕ) (c : Call) : List UInt8 :=
  match c.op with
  | .send x data len =>
    if x = sock ∧ sock ≠ 0 ∧ (t.heap sock).state = .established ∧ data.addr ≠ 0 ∧
        (kmalloc (t.given c.mem)).1.addr ≠ 0 then
      Ring.read data.bytes 0 len.toNat
    else []
  | _ => []

/-! ## One segment -/

/-- Acknowledgements take no numbers. -/
theorem Transmitted.acks (h : Transmitted x ps y) (hps : ∀ p ∈ ps, p.IsAck s) :
    (∀ p ∈ ps, p.tcp.seq = x) ∧ y = x := by
  induction ps generalizing x with
  | nil => exact ⟨fun p hp => absurd hp List.not_mem_nil, h⟩
  | cons p ps ih =>
    obtain ⟨hseq, hrest⟩ := h
    have hack := hps p List.mem_cons_self
    have hnext : p.next = x := by
      rw [Packet.next, hseq, hack.data, hack.syn, hack.fin]
      exact (UInt32.add_zero _).trans ((UInt32.add_zero _).trans (UInt32.add_zero _))
    rw [hnext] at hrest
    obtain ⟨hall, hy⟩ := ih hrest fun q hq => hps q (List.mem_cons_of_mem p hq)
    refine ⟨fun q hq => ?_, hy⟩
    rcases List.mem_cons.1 hq with rfl | hq
    · exact hseq
    · exact hall q hq

/-- The segment `tcp_tx` makes, if it makes one. -/
theorem tcpTx_from (t : Stack) (sock : ℕ) (data : ℕ → UInt8) (len : UInt16)
    (hsyn : hasFlag flags tcpSyn = false) :
    ((tcpTx t sock flags data len).sent = t.sent) ∨
      ∃ p, (tcpTx t sock flags data len).sent = t.sent ++ [p] ∧ p.From (t.heap sock) ∧
        p.tcp.flags = flags ∧ p.data = Ring.read data 0 len.toNat := by
  rcases tcpTx_packet t sock flags data len with hnone | hone
  · exact Or.inl hnone
  · exact Or.inr ⟨_, hone, ⟨rfl, rfl, hsyn⟩, rfl, rfl⟩

/-- An acknowledgement, if there is memory for it. -/
theorem tcpTx_ack (t : Stack) (sock : ℕ) :
    ∃ ps, (tcpTx t sock tcpAck noData 0).sent = t.sent ++ ps ∧ ∀ p ∈ ps, p.IsAck (t.heap sock) := by
  rcases tcpTx_from t sock noData 0 (by decide : hasFlag tcpAck tcpSyn = false) with
    hnone | ⟨p, hone, hfrom, hflags, hdata⟩
  · exact ⟨[], by rw [hnone, List.append_nil], fun p hp => absurd hp List.not_mem_nil⟩
  · refine ⟨[p], hone, fun q hq => ?_⟩
    obtain rfl := List.mem_singleton.1 hq
    exact ⟨hfrom, hdata, by rw [hflags]; decide⟩

/-- The ports decide what is a segment of the socket. -/
theorem Packet.IsAck.congr (h : p.IsAck s) (hlocal : s'.localPort = s.localPort)
    (hremote : s'.remotePort = s.remotePort) : p.IsAck s' :=
  ⟨⟨h.srcPort.trans hlocal.symm, h.dstPort.trans hremote.symm, h.syn⟩, h.data, h.fin⟩

/-! ## One call -/

/-- **An established connection answers with acknowledgements.** -/
theorem rxEstablished_acks (t : Stack) (sock : ℕ) (tcp : TcpHeader) (payload : ℕ → UInt8)
    (len : UInt16) :
    ∃ ps, (rxEstablished t sock tcp payload len).sent = t.sent ++ ps ∧
      ∀ p ∈ ps, p.IsAck (t.heap sock) := by
  -- the stages of the branch; each leaves the ports
  have hack : ∀ t : Stack, ∃ t₁, (if hasFlag tcp.flags tcpAck then
      t.modify sock fun s => { s with sndUna := tcp.ack } else t) = t₁ ∧ t₁.sent = t.sent ∧
      (t₁.heap sock).localPort = (t.heap sock).localPort ∧
      (t₁.heap sock).remotePort = (t.heap sock).remotePort := by
    intro t
    split
    · refine ⟨_, rfl, rfl, ?_, ?_⟩ <;> rw [modify_heap, Function.update_self]
    · exact ⟨_, rfl, rfl, rfl, rfl⟩
  have hdata : ∀ t : Stack, ∃ t₁ ps, (if 0 < len then if tcp.seq = (t.heap sock).rcvNxt then
      tcpTx (t.modify sock fun s => s.store payload len) sock tcpAck noData 0 else t else t) = t₁ ∧
      t₁.sent = t.sent ++ ps ∧ (∀ p ∈ ps, p.IsAck (t.heap sock)) ∧
      (t₁.heap sock).localPort = (t.heap sock).localPort ∧
      (t₁.heap sock).remotePort = (t.heap sock).remotePort := by
    intro t
    have hnone : ∃ ps, t.sent = t.sent ++ ps ∧ ∀ p ∈ ps, p.IsAck (t.heap sock) :=
      ⟨[], (List.append_nil _).symm, fun p hp => absurd hp List.not_mem_nil⟩
    split
    · split
      · obtain ⟨ps, hsent, hps⟩ := tcpTx_ack (t.modify sock fun s => s.store payload len) sock
        obtain ⟨hlocal, hremote, -⟩ := store_fields (t.heap sock) payload len
        have hself : ((t.modify sock fun s => s.store payload len).heap sock) =
            (t.heap sock).store payload len := by rw [modify_heap, Function.update_self]
        rw [hself] at hps
        refine ⟨_, ps, rfl, hsent, fun p hp => (hps p hp).congr hlocal.symm hremote.symm, ?_, ?_⟩
        · rw [tcpTx_ack_heap, hself, hlocal]
        · rw [tcpTx_ack_heap, hself, hremote]
      · obtain ⟨ps, hsent, hps⟩ := hnone
        exact ⟨_, ps, rfl, hsent, hps, rfl, rfl⟩
    · obtain ⟨ps, hsent, hps⟩ := hnone
      exact ⟨_, ps, rfl, hsent, hps, rfl, rfl⟩
  have hfin : ∀ t : Stack, ∃ ps, (if hasFlag tcp.flags tcpFin then
      tcpTx (t.modify sock fun s => { s with state := .closeWait, rcvNxt := s.rcvNxt + 1 }) sock
        tcpAck noData 0 else t).sent = t.sent ++ ps ∧ ∀ p ∈ ps, p.IsAck (t.heap sock) := by
    intro t
    split
    · obtain ⟨ps, hsent, hps⟩ := tcpTx_ack
        (t.modify sock fun s => { s with state := .closeWait, rcvNxt := s.rcvNxt + 1 }) sock
      rw [modify_heap, Function.update_self] at hps
      exact ⟨ps, hsent, fun p hp => (hps p hp).congr rfl rfl⟩
    · exact ⟨[], (List.append_nil _).symm, fun p hp => absurd hp List.not_mem_nil⟩
  obtain ⟨t₁, h₁, hsent₁, hlocal₁, hremote₁⟩ := hack t
  obtain ⟨t₂, ps₂, h₂, hsent₂, hps₂, hlocal₂, hremote₂⟩ := hdata t₁
  obtain ⟨ps₃, hsent₃, hps₃⟩ := hfin t₂
  refine ⟨ps₂ ++ ps₃, ?_, fun p hp => ?_⟩
  · simp only [rxEstablished]
    rw [h₁, h₂, hsent₃, hsent₂, hsent₁, List.append_assoc]
  · rcases List.mem_append.1 hp with hp | hp
    · exact (hps₂ p hp).congr hlocal₁.symm hremote₁.symm
    · exact (hps₃ p hp).congr (hlocal₂.trans hlocal₁).symm (hremote₂.trans hremote₁).symm

/-- **A segment makes an open socket answer with acknowledgements only.** -/
theorem tcpRx_acks (payload : ℕ → UInt8) (len : UInt16) (hopen : (t.heap sock).Open)
    (h : t.lookup tcp.dstPort tcp.srcPort = some sock) :
    ∃ ps, (tcpRx t tcp payload len).sent = t.sent ++ ps ∧ ∀ p ∈ ps, p.IsAck (t.heap sock) := by
  have hnone : ∀ t' : Stack, t'.sent = t.sent →
      ∃ ps, t'.sent = t.sent ++ ps ∧ ∀ p ∈ ps, p.IsAck (t.heap sock) := fun t' hsent =>
    ⟨[], by rw [hsent, List.append_nil], fun p hp => absurd hp List.not_mem_nil⟩
  have honAck : ∀ state, (rxOnAck t sock tcp state).sent = t.sent := by
    intro state
    unfold rxOnAck
    split <;> rfl
  unfold tcpRx
  rw [h]
  simp only
  rcases hopen with hs | hs | hs | hs <;> rw [hs] <;> simp only
  · exact rxEstablished_acks t sock tcp payload len
  · exact hnone _ (honAck _)
  · exact hnone _ rfl
  · exact hnone _ (honAck _)

/-- **All that an open socket sends in one call**: acknowledgements, one
segment of the bytes of `tcp_send`, or a FIN. -/
inductive Sends (t : Stack) (sock : ℕ) (c : Call) : List Packet → Prop
  | acks (ps : List Packet) (hps : ∀ p ∈ ps, p.IsAck (t.heap sock)) (hnone : t.writes sock c = []) :
      Sends t sock c ps
  | data (p : Packet) (hstate : (t.heap sock).state = .established) (hfrom : p.From (t.heap sock))
      (hdata : p.data = t.writes sock c) (hfin : hasFlag p.tcp.flags tcpFin = false) :
      Sends t sock c [p]
  | fin (p : Packet) (hop : c.op = .close sock) (hstate : (t.heap sock).MaySend)
      (hend : ¬ ((t.step c).heap sock).MaySend) (hfrom : p.From (t.heap sock))
      (hdata : p.data = []) : Sends t sock c [p]

/-- Nothing is sent. -/
theorem Sends.none (hnone : t.writes sock c = []) : Sends t sock c [] :=
  .acks [] (fun _ hp => absurd hp List.not_mem_nil) hnone

/-- **What `tcp_send` sends.** -/
theorem send_sends (t : Stack) (sock : ℕ) (data : Block) (len : UInt16) (mem : List Block) :
    ∃ ps, (tcpSend (t.given mem) sock data len).2.sent = t.sent ++ ps ∧
      Sends t sock ⟨.send sock data len, mem⟩ ps := by
  have hquiet : ∀ t' : Stack, t'.sent = t.sent → t.writes sock ⟨.send sock data len, mem⟩ = [] →
      ∃ ps, t'.sent = t.sent ++ ps ∧ Sends t sock ⟨.send sock data len, mem⟩ ps :=
    fun t' hsent hnone => ⟨[], by rw [hsent, List.append_nil], .none hnone⟩
  by_cases hclosed : sock = 0 ∨ (t.heap sock).state ≠ .established
  · have hresult : tcpSend (t.given mem) sock data len = (none, t.given mem) := if_pos hclosed
    rw [hresult]
    refine hquiet _ rfl (if_neg ?_)
    rintro ⟨-, hsock, hstate, -⟩
    exact hclosed.elim hsock fun hne => hne hstate
  have hopen := not_or.1 hclosed
  rw [not_not] at hopen
  by_cases hempty : data.addr = 0 ∨ len = 0
  · have hresult : tcpSend (t.given mem) sock data len = (some 0, t.given mem) :=
      (if_neg hclosed).trans (if_pos hempty)
    rw [hresult]
    refine hquiet _ rfl ?_
    rcases hempty with hnull | rfl
    · exact if_neg fun hc => hc.2.2.2.1 hnull
    · simp only [Stack.writes]
      split <;> rfl
  have hdata := not_or.1 hempty
  have hresult : tcpSend (t.given mem) sock data len =
      (some len, tcpTx (t.given mem) sock (tcpAck ||| tcpPsh) data.bytes len) :=
    (if_neg hclosed).trans (if_neg hempty)
  simp only [hresult, tcpTx, if_neg hopen.1]
  by_cases hmem : (kmalloc (t.given mem)).1.addr = 0
  · rw [if_pos hmem]
    exact hquiet _ (kmalloc_sent _) (if_neg fun hc => hc.2.2.2.2 hmem)
  · rw [if_neg hmem]
    have hwrites : t.writes sock ⟨.send sock data len, mem⟩ = Ring.read data.bytes 0 len.toNat :=
      if_pos ⟨rfl, hopen.1, hopen.2, hdata.1, hmem⟩
    refine ⟨[_], by rw [modify_sent, kmalloc_sent]; rfl, .data _ hopen.2 ?_ hwrites.symm ?_⟩
    · rw [kmalloc_heap]
      exact ⟨rfl, rfl, (by decide : hasFlag (tcpAck ||| tcpPsh) tcpSyn = false)⟩
    · exact (by decide : hasFlag (tcpAck ||| tcpPsh) tcpFin = false)

/-- What `tcp_close` sends. -/
theorem close_sends (t : Stack) (sock : ℕ) (mem : List Block) :
    ∃ ps, (tcpClose (t.given mem) sock).sent = t.sent ++ ps ∧
      Sends t sock ⟨.close sock, mem⟩ ps := by
  have hquiet : ∀ t' : Stack, t'.sent = t.sent →
      ∃ ps, t'.sent = t.sent ++ ps ∧ Sends t sock ⟨.close sock, mem⟩ ps :=
    fun t' hsent => ⟨[], by rw [hsent, List.append_nil], .none rfl⟩
  have hfin : ∀ state, state = .finWait1 ∨ state = .lastAck → (t.heap sock).MaySend →
      tcpClose (t.given mem) sock = tcpTx ((t.given mem).modify sock fun s =>
        { s with state := state }) sock (tcpFin ||| tcpAck) noData 0 →
      ∃ ps, (tcpClose (t.given mem) sock).sent = t.sent ++ ps ∧
        Sends t sock ⟨.close sock, mem⟩ ps := by
    intro state hstate hmay heq
    have hself : ((tcpClose (t.given mem) sock).heap sock).state = state := by
      rw [heq, (tcpTx_self _ sock (tcpFin ||| tcpAck) noData 0).1, modify_heap,
        Function.update_self]
    rcases tcpTx_from ((t.given mem).modify sock fun s => { s with state := state }) sock noData 0
      (by decide : hasFlag (tcpFin ||| tcpAck) tcpSyn = false)
      with hnone | ⟨p, hone, hfrom, -, hdata⟩
    · exact hquiet _ (heq ▸ hnone)
    · rw [modify_heap, Function.update_self] at hfrom
      refine ⟨[p], heq ▸ hone, .fin p rfl hmay ?_ ⟨hfrom.srcPort, hfrom.dstPort, hfrom.syn⟩ hdata⟩
      rintro (hc | hc) <;> rw [hself.symm.trans hc] at hstate <;>
        exact hstate.elim TcpState.noConfusion TcpState.noConfusion
  by_cases hsock : sock = 0
  · have hnull : tcpClose (t.given mem) sock = t.given mem := if_pos hsock
    exact hquiet _ (by rw [hnull]; rfl)
  · have heq : tcpClose (t.given mem) sock = _ := if_neg hsock
    rw [given_heap] at heq
    cases hs : (t.heap sock).state with
    | established => exact hfin _ (Or.inl rfl) (Or.inl hs) (by rw [heq, hs])
    | closeWait => exact hfin _ (Or.inr rfl) (Or.inr hs) (by rw [heq, hs])
    | _ => exact hquiet _ (by rw [heq, hs]; rfl)

/-- **What an open socket sends in a call.** -/
theorem open_sends (hfresh : Fresh t c) (hin : sock ∈ t.sockets) (hopen : (t.heap sock).Open) :
    Sends t sock c (t.sends sock c) := by
  by_cases hsender : t.sender c = some sock
  · have hdue : (∃ ps, (t.step c).sent = t.sent ++ ps ∧ Sends t sock c ps) →
        Sends t sock c (t.sends sock c) := by
      rintro ⟨ps, hsent, hps⟩
      rw [sends_eq hsender hsent]
      exact hps
    obtain ⟨op, mem⟩ := c
    cases op with
    | connect x addr port =>
      -- the socket is not closed
      obtain rfl : x = sock := Option.some.inj hsender
      have hstate : ((t.given mem).heap x).state ≠ .closed := by
        rcases hopen with hs | hs | hs | hs <;> rw [given_heap, hs] <;> exact TcpState.noConfusion
      refine hdue ⟨[], ?_, .none rfl⟩
      simp only [Stack.step, tcpConnect_refused addr port (Or.inr hstate)]
      exact (List.append_nil _).symm
    | send x data len =>
      obtain rfl : x = sock := Option.some.inj hsender
      exact hdue (send_sends t x data len mem)
    | close x =>
      obtain rfl : x = sock := Option.some.inj hsender
      exact hdue (close_sends t x mem)
    | rx tcp payload len =>
      have hnotListen : (t.heap sock).state ≠ .listen := by
        rcases hopen with hs | hs | hs | hs <;> rw [hs] <;> exact TcpState.noConfusion
      cases hfound : t.lookup tcp.dstPort tcp.srcPort with
      | none =>
        simp only [Stack.sender, hfound] at hsender
        exact absurd hsender.symm (Option.some_ne_none sock)
      | some x =>
        simp only [Stack.sender, hfound, Option.map_some] at hsender
        split at hsender
        · rename_i hlisten
          -- the new socket is not in the list, or there is none
          have hnull : (kmalloc (t.given mem)).1.addr = 0 := by
            by_contra haddr
            exact hfresh.ne hin haddr (Option.some.inj hsender)
          refine hdue ⟨[], ?_, .none rfl⟩
          simp only [Stack.step]
          rw [tcpRx_listen (t := t.given mem) hfound hlisten, List.append_nil]
          rcases rxListen_cases (t.given mem) x tcp with ⟨-, -, -, hsent⟩ | ⟨⟨-, haddr⟩, -⟩
          · exact hsent
          · exact absurd hnull haddr
        · obtain rfl : x = sock := Option.some.inj hsender
          obtain ⟨ps, hsent, hps⟩ := tcpRx_acks (t := t.given mem) payload len hopen hfound
          exact hdue ⟨ps, hsent, .acks ps hps rfl⟩
    | _ => exact absurd hsender.symm (Option.some_ne_none sock)
  · rw [Stack.sends, if_neg hsender]
    refine .none ?_
    obtain ⟨op, mem⟩ := c
    cases op with
    | send x data len => exact if_neg fun hc => hsender (congrArg some hc.1)
    | _ => rfl

/-- A segment on an open connection leaves it open or closes it. -/
theorem receive_open (hopen : s.Open) (tcp : TcpHeader) (payload : ℕ → UInt8) (len : UInt16)
    (hlasts : (s.receive tcp payload len).state ≠ .closed) :
    (s.receive tcp payload len).Open ∧ ((s.receive tcp payload len).MaySend → s.MaySend) := by
  rcases hopen with hs | hs | hs | hs
  · have hstate : ((s.takeAck tcp).takeData tcp payload len).state = .established := by
      rw [((s.takeAck tcp).take_ports tcp payload len).2.1.2.2,
        (s.take_ports tcp payload len).1.2.2, hs]
    rw [Socket.receive_of_established hs]
    refine ⟨?_, fun _ => Or.inl hs⟩
    unfold Socket.takeFin
    split
    · exact Or.inr (Or.inl rfl)
    · exact Or.inl hstate
  · refine ⟨?_, fun _ => Or.inr hs⟩
    simp only [Socket.receive, hs] at hlasts ⊢
    split
    · rename_i hack
      rw [if_pos hack] at hlasts
      exact absurd rfl hlasts
    · exact Or.inr (Or.inl hs)
  · have hsame : s.receive tcp payload len = s := by simp [Socket.receive, hs]
    rw [hsame]
    exact ⟨Or.inr (Or.inr (Or.inl hs)), id⟩
  · have hno : ∀ s' : Socket, s'.state = .lastAck ∨ s'.state = .closed →
        s'.MaySend → s.MaySend := by
      rintro s' hstate (hc | hc) <;> rw [hc] at hstate <;>
        exact hstate.elim TcpState.noConfusion TcpState.noConfusion
    simp only [Socket.receive, hs] at hlasts ⊢
    split
    · rename_i hack
      rw [if_pos hack] at hlasts
      exact absurd rfl hlasts
    · exact ⟨Or.inr (Or.inr (Or.inr hs)), hno s (Or.inl hs)⟩

/-- **No call ends an open connection but by closing it**, and none lets a
socket send again. -/
theorem Moves.stays_open {op : Op} (h : Moves t sock op s) (hopen : (t.heap sock).Open)
    (hlasts : s.state ≠ .closed) :
    s.Open ∧ (s.MaySend → (t.heap sock).MaySend) ∧ s.localPort = (t.heap sock).localPort ∧
      s.remotePort = (t.heap sock).remotePort := by
  have hnotClosed : (t.heap sock).state ≠ .closed := by
    rcases hopen with hs | hs | hs | hs <;> rw [hs] <;> exact TcpState.noConfusion
  cases h with
  | same => exact ⟨hopen, id, rfl, rfl⟩
  | bind addr port hclosed => exact absurd hclosed hnotClosed
  | listen hclosed => exact absurd hclosed hnotClosed
  | connect addr port s hclosed => exact absurd hclosed hnotClosed
  | send data len sndNxt => exact ⟨hopen, id, rfl, rfl⟩
  | recv len _ => exact ⟨hopen, id, rfl, rfl⟩
  | close sndNxt =>
    refine ⟨?_, ?_, rfl, rfl⟩
    · rcases hopen with hs | hs | hs | hs <;> simp [Socket.Open, hs, TcpState.afterClose]
    · rcases hopen with hs | hs | hs | hs <;> simp [Socket.MaySend, hs, TcpState.afterClose]
  | tick n =>
    obtain ⟨state, timer, heq, hstate⟩ := tick_iterate n (t.heap sock)
    rw [heq] at hlasts ⊢
    have hsame : state = (t.heap sock).state := hstate.resolve_right hlasts
    rw [hsame]
    exact ⟨hopen, id, rfl, rfl⟩
  | rx tcp payload len _ _ =>
    obtain ⟨hstays, hmay⟩ := receive_open hopen tcp payload len hlasts
    obtain ⟨hlocal, hremote⟩ := (t.heap sock).receive_ports tcp payload len
    exact ⟨hstays, hmay, hlocal, hremote⟩

/-- A socket that is not closed stays in the list. -/
theorem step_listed (hin : sock ∈ t.sockets) (hopen : (t.heap sock).Open) :
    sock ∈ (t.step c).sockets := by
  rcases step_sockets t c with hsame | ⟨new, s, -, hcons, -⟩ | ⟨-, hfilter⟩
  · rw [hsame]
    exact hin
  · rw [hcons]
    exact List.mem_cons_of_mem new hin
  · rw [hfilter]
    refine List.mem_filter.2 ⟨hin, ?_⟩
    rcases hopen with hs | hs | hs | hs <;> rw [hs] <;> rfl

/-! ## Runs -/

/-- What `tcp_recv` on a socket returns. -/
def Stack.reads (t : Stack) (sock : ℕ) (c : Call) : List UInt8 :=
  match c.op with
  | .recv x len => if x = sock then (tcpRecv (t.given c.mem) sock len).1.getD [] else []
  | _ => []

/-- One end of a connection: the stack, what its socket sent, the bytes
that went into that, and those that were read. -/
structure End where
  stack : Stack
  log : List Packet
  written : List UInt8
  returned : List UInt8

/-- One call. -/
def End.step (sock : ℕ) (e : End) (c : Call) : End where
  stack := e.stack.step c
  log := e.log ++ e.stack.sends sock c
  written := e.written ++ e.stack.writes sock c
  returned := e.returned ++ e.stack.reads sock c

/-- An end when the connection begins. -/
def End.begin (t : Stack) : End := ⟨t, [], [], []⟩

/-- **The connection lasts**: new sockets are new, and the socket is not
closed. -/
def End.Lasts (sock : ℕ) (e : End) (c : Call) : Prop :=
  Fresh e.stack c ∧ ((e.stack.step c).heap sock).state ≠ .closed

instance End.Lasts.decidable (sock : ℕ) (e : End) (c : Call) : Decidable (e.Lasts sock c) :=
  inferInstanceAs (Decidable (_ ∧ _))

/-- **A segment at its place in the stream.** -/
structure Placed (stream : List UInt8) (isn : UInt32) (lport rport : UInt16) (p : Packet) :
    Prop where
  srcPort : p.tcp.srcPort = lport
  dstPort : p.tcp.dstPort = rport
  length_lt : p.data.length < 2 ^ 16
  slice : ∃ off, off + p.data.length ≤ stream.length ∧ p.tcp.seq = isn + UInt32.ofNat off ∧
    p.data = (stream.drop off).take p.data.length

/-- **The invariant of an end that sends.** -/
structure End.Outgoing (sock : ℕ) (isn : UInt32) (lport rport : UInt16) (e : End) : Prop where
  listed : sock ∈ e.stack.sockets
  isOpen : (e.stack.heap sock).Open
  ports : (e.stack.heap sock).localPort = lport ∧ (e.stack.heap sock).remotePort = rport
  next : (e.stack.heap sock).MaySend →
    (e.stack.heap sock).sndNxt = isn + UInt32.ofNat e.written.length
  placed : ∀ p ∈ e.log, Placed e.written isn lport rport p
  ended : ∀ p ∈ e.log, hasFlag p.tcp.flags tcpFin = true →
    ¬ (e.stack.heap sock).MaySend ∧ p.tcp.seq = isn + UInt32.ofNat e.written.length
  bytes : e.log.flatMap Packet.data = e.written

variable {isn : UInt32} {lport rport : UInt16} {e : End} {stream more : List UInt8}

/-- A stream that goes on. -/
theorem Placed.append (h : Placed stream isn lport rport p) (more : List UInt8) :
    Placed (stream ++ more) isn lport rport p := by
  obtain ⟨off, hle, hseq, hdata⟩ := h.slice
  refine ⟨h.srcPort, h.dstPort, h.length_lt, off, ?_, hseq, ?_⟩
  · rw [List.length_append]
    omega
  · rw [List.drop_append_of_le_length (by omega), List.take_append_of_le_length, ← hdata]
    rw [List.length_drop]
    omega

/-- The segment that carries what is written next. -/
theorem placed_next (hfrom : p.From s) (hlocal : s.localPort = lport)
    (hremote : s.remotePort = rport) (hlt : p.data.length < 2 ^ 16)
    (hseq : p.tcp.seq = isn + UInt32.ofNat stream.length)
    (hdata : p.data = more) : Placed (stream ++ more) isn lport rport p := by
  refine ⟨hfrom.srcPort.trans hlocal, hfrom.dstPort.trans hremote, hlt, stream.length, ?_, hseq, ?_⟩
  · rw [List.length_append, hdata]
  · rw [List.drop_left, hdata, List.take_length]

theorem length_writes_lt (t : Stack) (sock : ℕ) (c : Call) : (t.writes sock c).length < 2 ^ 16 := by
  unfold Stack.writes
  split
  · rename_i len _
    split
    · rw [Ring.length_read]
      exact len.toNat_lt
    · exact Nat.two_pow_pos 16
  · exact Nat.two_pow_pos 16

/-- One who speaks may send. -/
theorem Stack.Speaks.maySend (h : t.Speaks sock c.op) (hopen : (t.heap sock).Open) :
    (t.heap sock).MaySend := by
  cases hop : c.op with
  | send x data len =>
    rw [hop] at h
    exact Or.inl h.2.1
  | close x =>
    rw [hop] at h
    exact h.2
  | rx tcp payload len =>
    rw [hop] at h
    rcases h.2 with ⟨hsyn, -⟩ | ⟨hs, -⟩
    · rcases hopen with hs | hs | hs | hs <;> rw [hs] at hsyn <;> cases hsyn
    · exact Or.inl hs
  | _ =>
    rw [hop] at h
    exact h.elim

/-- What an open socket sends starts at `snd_nxt` and moves it, and it may. -/
theorem open_transmitted (hfresh : Fresh t c) (hin : sock ∈ t.sockets)
    (hopen : (t.heap sock).Open) :
    Transmitted (t.heap sock).sndNxt (t.sends sock c) ((t.step c).heap sock).sndNxt ∧
      (t.sends sock c ≠ [] → (t.heap sock).MaySend) := by
  rcases step_sends hfresh hin with ⟨hnil, hnxt⟩ | ⟨addr, port, -, hclosed, -⟩ | ⟨hspeaks, htr⟩
  · rw [hnil]
    exact ⟨hnxt, fun hc => absurd rfl hc⟩
  · rcases hopen with hs | hs | hs | hs <;> rw [hs] at hclosed <;> cases hclosed
  · exact ⟨htr, fun _ => hspeaks.maySend hopen⟩

/-- The invariant of an end that has sent and taken more. -/
theorem End.Outgoing.extend {e' : End} {ps : List Packet} {bs : List UInt8}
    (h : e.Outgoing sock isn lport rport) (hlog : e'.log = e.log ++ ps)
    (hwritten : e'.written = e.written ++ bs) (hlisted : sock ∈ e'.stack.sockets)
    (hopen : (e'.stack.heap sock).Open)
    (hports : (e'.stack.heap sock).localPort = lport ∧ (e'.stack.heap sock).remotePort = rport)
    (hnext : (e'.stack.heap sock).MaySend →
      (e'.stack.heap sock).sndNxt = isn + UInt32.ofNat e'.written.length)
    (hplaced : ∀ p ∈ ps, Placed e'.written isn lport rport p)
    (hended : ∀ p ∈ e.log ++ ps, hasFlag p.tcp.flags tcpFin = true →
      ¬ (e'.stack.heap sock).MaySend ∧ p.tcp.seq = isn + UInt32.ofNat e'.written.length)
    (hbytes : ps.flatMap Packet.data = bs) : e'.Outgoing sock isn lport rport where
  listed := hlisted
  isOpen := hopen
  ports := hports
  next := hnext
  placed := by
    rw [hlog]
    refine List.forall_mem_append.2 ⟨fun p hp => ?_, hplaced⟩
    rw [hwritten]
    exact (h.placed p hp).append bs
  ended := by
    rw [hlog]
    exact hended
  bytes := by rw [hlog, hwritten, List.flatMap_append, h.bytes, hbytes]

/-- **A call keeps the invariant.** -/
theorem End.Outgoing.step (h : e.Outgoing sock isn lport rport) (hlasts : e.Lasts sock c) :
    (e.step sock c).Outgoing sock isn lport rport := by
  obtain ⟨hfresh, hstate⟩ := hlasts
  obtain ⟨hopen', hmay, hlocal, hremote⟩ :=
    (step_moves hfresh h.listed).stays_open h.isOpen hstate
  obtain ⟨htr, hdue⟩ := open_transmitted hfresh h.listed h.isOpen
  have hsends := open_sends hfresh h.listed h.isOpen
  have hports : ((e.step sock c).stack.heap sock).localPort = lport ∧
      ((e.step sock c).stack.heap sock).remotePort = rport :=
    ⟨hlocal.trans h.ports.1, hremote.trans h.ports.2⟩
  have hlisted : sock ∈ (e.step sock c).stack.sockets := step_listed h.listed h.isOpen
  have hlog : (e.step sock c).log = e.log ++ e.stack.sends sock c := rfl
  have hwritten : (e.step sock c).written = e.written ++ e.stack.writes sock c := rfl
  have hlt := length_writes_lt e.stack sock c
  generalize e.stack.sends sock c = ps at hsends htr hdue hlog
  cases hsends with
  | acks _ hps hnone =>
    obtain ⟨hseqs, hnxt⟩ := htr.acks hps
    have hsame : (e.step sock c).written = e.written := by
      rw [hwritten, hnone, List.append_nil]
    have hbytes : ps.flatMap Packet.data = [] :=
      List.flatMap_eq_nil_iff.2 fun p hp => (hps p hp).data
    refine h.extend hlog hwritten hlisted hopen' hports (fun hm => ?_) (fun p hp => ?_)
      (List.forall_mem_append.2 ⟨fun p hp hfin => ?_, fun p hp hfin => ?_⟩)
      (hbytes.trans hnone.symm)
    · rw [hsame]
      exact hnxt.trans (h.next (hmay hm))
    · -- it carries nothing, at the end of the stream
      have hseq := (hseqs p hp).trans (h.next (hdue (List.ne_nil_of_mem hp)))
      have hnext := placed_next (hps p hp).toFrom h.ports.1 h.ports.2
        (by rw [(hps p hp).data]; exact Nat.two_pow_pos 16) hseq (hps p hp).data
      rwa [List.append_nil, ← hsame] at hnext
    · obtain ⟨hno, hseq⟩ := h.ended p hp hfin
      rw [hsame]
      exact ⟨fun hm => hno (hmay hm), hseq⟩
    · rw [(hps p hp).fin] at hfin
      cases hfin
  | data p hest hfrom hdata hfin =>
    obtain ⟨hseq, hnxt⟩ := htr
    have hseq' := hseq.trans (h.next (Or.inl hest))
    refine h.extend hlog hwritten hlisted hopen' hports (fun _ => ?_)
      (List.forall_mem_singleton.2 ?_)
      (List.forall_mem_append.2 ⟨fun q hq hfinq => ?_, List.forall_mem_singleton.2 fun hfinq => ?_⟩)
      ((List.flatMap_singleton ..).trans hdata)
    · have hnext : p.next = p.tcp.seq + UInt32.ofNat p.data.length := by
        rw [Packet.next, hfrom.syn, hfin]
        exact (UInt32.add_zero _).trans (UInt32.add_zero _)
      have hnow : ((e.step sock c).stack.heap sock).sndNxt = p.next := hnxt
      rw [hnow, hnext, hseq', hwritten, List.length_append, UInt32.ofNat_add, ← UInt32.add_assoc,
        hdata]
    · rw [hwritten]
      exact placed_next hfrom h.ports.1 h.ports.2 (hdata ▸ hlt) hseq' hdata
    · exact absurd (Or.inl hest) (h.ended q hq hfinq).1
    · rw [hfin] at hfinq
      cases hfinq
  | fin p hop hm hend hfrom hdata =>
    obtain ⟨hseq, -⟩ := htr
    have hseq' := hseq.trans (h.next hm)
    have hnone : e.stack.writes sock c = [] := by rw [Stack.writes, hop]
    have hsame : (e.step sock c).written = e.written := by
      rw [hwritten, hnone, List.append_nil]
    refine h.extend hlog hwritten hlisted hopen' hports (fun hm' => absurd hm' hend)
      (List.forall_mem_singleton.2 ?_)
      (List.forall_mem_append.2 ⟨fun q hq hfinq => ?_, List.forall_mem_singleton.2 fun _ => ?_⟩)
      ((List.flatMap_singleton ..).trans (hdata.trans hnone.symm))
    · have hnext := placed_next hfrom h.ports.1 h.ports.2
        (by rw [hdata]; exact Nat.two_pow_pos 16) hseq' hdata
      rwa [List.append_nil, ← hsame] at hnext
    · exact absurd hm (h.ended q hq hfinq).1
    · rw [hsame]
      exact ⟨hend, hseq'⟩

/-- An established socket that has sent nothing yet. -/
theorem outgoing_begin (hin : sock ∈ t.sockets) (hstate : (t.heap sock).state = .established) :
    (End.begin t).Outgoing sock (t.heap sock).sndNxt (t.heap sock).localPort
      (t.heap sock).remotePort where
  listed := hin
  isOpen := Or.inl hstate
  ports := ⟨rfl, rfl⟩
  next _ := (UInt32.add_zero _).symm
  placed _ hp := absurd hp List.not_mem_nil
  ended _ hp := absurd hp List.not_mem_nil
  bytes := rfl

end Tcp

end Kos
