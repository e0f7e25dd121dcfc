import Kos.Common.Potential
import Kos.Tcp.Advertise
import Kos.Tcp.Closing
import Kos.Tcp.EndToEnd
import Mathlib.Algebra.Group.Action.Defs
import Mathlib.Algebra.Order.BigOperators.Group.Finset
import Mathlib.Algebra.Order.BigOperators.Group.List
import Mathlib.Data.List.Find
import Mathlib.Tactic.Ring
/-!
# Tcp — a network comes to rest

A segment is answered by segments that ask for less: data and a FIN by
acknowledgements, a SYN by a SYN with an acknowledgement, that by an
acknowledgement, and an acknowledgement by nothing. Only a listening
socket takes what is itself an answer for a question, and it does so once
for each pair of ports, since the socket it makes is found from then on.
So hosts that write and open nothing fall silent, whatever is lost or
comes late, and after a number of arrivals that can be told in advance.
-/

namespace Kos

namespace Tcp

variable {t t' : Stack} {sock : ℕ} {c : Call} {tcp : TcpHeader} {payload data : ℕ → UInt8}
  {len : UInt16} {p : Packet} {ps : List Packet} {a b : UInt16}

/-! ## What an answer costs -/

/-- What a segment may bring about: itself, and what it is answered by. -/
def segmentWeight (flags : UInt8) (len : ℕ) : ℕ :=
  if 0 < len ∨ hasFlag flags tcpFin = true then 3
  else if hasFlag flags tcpSyn = true then 2 else 1

/-- The weight of a packet. -/
def Packet.weight (p : Packet) : ℕ := segmentWeight p.tcp.flags p.data.length

theorem segmentWeight_pos (flags : UInt8) (len : ℕ) : 1 ≤ segmentWeight flags len := by
  unfold segmentWeight
  split
  · decide
  · split <;> decide

theorem segmentWeight_le (flags : UInt8) (len : ℕ) : segmentWeight flags len ≤ 3 := by
  unfold segmentWeight
  split
  · decide
  · split <;> decide

theorem two_le_segmentWeight {flags : UInt8} (hsyn : hasFlag flags tcpSyn = true) (len : ℕ) :
    2 ≤ segmentWeight flags len := by
  unfold segmentWeight
  rw [if_pos hsyn]
  split <;> decide

/-- An acknowledgement weighs 1. -/
theorem Packet.IsAck.weight {s : Socket} (h : p.IsAck s) : p.weight = 1 := by
  have hneither : ¬ (0 < p.data.length ∨ hasFlag p.tcp.flags tcpFin = true) := by
    rw [h.data, h.fin]
    decide
  have hsyn : ¬ hasFlag p.tcp.flags tcpSyn = true := by
    rw [h.syn]
    decide
  rw [Packet.weight, segmentWeight, if_neg hneither, if_neg hsyn]

/-- **A segment that answers another**: it goes back and carries nothing. -/
structure Packet.Replies (tcp : TcpHeader) (p : Packet) : Prop where
  srcPort : p.tcp.srcPort = tcp.dstPort
  dstPort : p.tcp.dstPort = tcp.srcPort
  data : p.data = []

/-- The pair of ports is looked up to a listening socket. -/
def Stack.Listens (t : Stack) (dport sport : UInt16) : Prop :=
  ∃ sock, t.lookup dport sport = some sock ∧ (t.heap sock).state = .listen

instance Stack.Listens.decidable (t : Stack) (dport sport : UInt16) :
    Decidable (t.Listens dport sport) :=
  match h : t.lookup dport sport with
  | none => isFalse fun ⟨_, hs, _⟩ => Option.some_ne_none _ (hs.symm.trans h)
  | some sock =>
    decidable_of_iff ((t.heap sock).state = .listen)
      ⟨fun hs => ⟨sock, h, hs⟩, fun ⟨_, hs, hstate⟩ => Option.some.inj (h.symm.trans hs) ▸ hstate⟩

/-! ## The answers to a segment -/

theorem length_tcpTx_sent (t : Stack) (sock : ℕ) (flags : UInt8) (data : ℕ → UInt8) (len : UInt16) :
    (tcpTx t sock flags data len).sent.length ≤ t.sent.length + 1 := by
  rcases tcpTx_packet t sock flags data len with h | h
  · rw [h]
    exact Nat.le_succ _
  · rw [h, List.length_append]
    exact le_rfl

/-- On an established connection data ask for one answer and a FIN for
one. -/
theorem length_rxEstablished_sent (t : Stack) (sock : ℕ) (tcp : TcpHeader) (payload : ℕ → UInt8)
    (len : UInt16) : (rxEstablished t sock tcp payload len).sent.length ≤
      t.sent.length + (if 0 < len then 1 else 0) +
        if hasFlag tcp.flags tcpFin = true then 1 else 0 := by
  have hack : ∀ t : Stack, (if hasFlag tcp.flags tcpAck then
      t.modify sock fun s => { s with sndUna := tcp.ack } else t).sent = t.sent := by
    intro t
    split <;> rfl
  have hdata : ∀ t : Stack, (if 0 < len then if tcp.seq = (t.heap sock).rcvNxt then
      tcpTx (t.modify sock fun s => s.store payload len) sock tcpAck noData 0 else t
      else t).sent.length ≤ t.sent.length + if 0 < len then 1 else 0 := by
    intro t
    split
    · split
      · exact length_tcpTx_sent ..
      · exact Nat.le_succ _
    · exact le_rfl
  simp only [rxEstablished]
  split
  · refine (length_tcpTx_sent ..).trans ?_
    rw [modify_sent]
    have := hdata (if hasFlag tcp.flags tcpAck then
      t.modify sock fun s => { s with sndUna := tcp.ack } else t)
    rw [hack] at this
    omega
  · have := hdata (if hasFlag tcp.flags tcpAck then
      t.modify sock fun s => { s with sndUna := tcp.ack } else t)
    rw [hack] at this
    exact this

/-- Acknowledgements weigh as much as there are of them. -/
theorem sum_weight_acks {s : Socket} (hps : ∀ p ∈ ps, p.IsAck s) :
    (ps.map Packet.weight).sum = ps.length := by
  induction ps with
  | nil => rfl
  | cons p ps ih =>
    rw [List.forall_mem_cons] at hps
    rw [List.map_cons, List.sum_cons, hps.1.weight, ih hps.2, List.length_cons, Nat.add_comm]

/-- **An answer that asks for less** than a segment of `n` bytes. -/
structure Answers (tcp : TcpHeader) (n : ℕ) (ps : List Packet) : Prop where
  replies : ∀ p ∈ ps, p.Replies tcp
  less : (ps.map Packet.weight).sum + 1 ≤ segmentWeight tcp.flags n

theorem Answers.none (tcp : TcpHeader) (n : ℕ) : Answers tcp n [] :=
  ⟨fun _ hp => absurd hp List.not_mem_nil, segmentWeight_pos ..⟩

/-- Acknowledgements of the socket that was found. -/
theorem Answers.acks {n k : ℕ} {s : Socket} (hacks : ∀ p ∈ ps, p.IsAck s)
    (hports : s.localPort = tcp.dstPort ∧ s.remotePort = tcp.srcPort) (hlen : ps.length ≤ k)
    (hk : k + 1 ≤ segmentWeight tcp.flags n) : Answers tcp n ps := by
  refine ⟨fun p hp => ?_, ?_⟩
  · exact ⟨(hacks p hp).srcPort.trans hports.1, (hacks p hp).dstPort.trans hports.2,
      (hacks p hp).data⟩
  · rw [sum_weight_acks hacks]
    omega

/-- A socket that is found has the port of the segment. -/
theorem lookup_localPort (h : t.lookup a b = some sock) : (t.heap sock).localPort = a := by
  have haccepts := List.find?_some h
  simp only [Socket.accepts, Bool.or_eq_true, Bool.and_eq_true, beq_iff_eq] at haccepts
  rcases haccepts with haccepts | haccepts
  · exact haccepts.1
  · exact haccepts.2

/-- **What a socket that is not listening answers.** -/
theorem rx_answers {n : ℕ} (payload : ℕ → UInt8) (hn : len.toNat ≤ n)
    (h : t.lookup tcp.dstPort tcp.srcPort = some sock) (hs : (t.heap sock).state ≠ .listen) :
    ∃ ps, (tcpRx t tcp payload len).sent = t.sent ++ ps ∧ Answers tcp n ps := by
  have hquiet : ∀ t' : Stack, t'.sent = t.sent → ∃ ps, t'.sent = t.sent ++ ps ∧ Answers tcp n ps :=
    fun t' hsent => ⟨[], by rw [hsent, List.append_nil], .none tcp n⟩
  have honAck : ∀ state, (rxOnAck t sock tcp state).sent = t.sent := by
    intro state
    unfold rxOnAck
    split <;> rfl
  have hports := lookup_ports h hs
  unfold tcpRx
  rw [h]
  simp only
  cases hstate : (t.heap sock).state with
  | listen => exact absurd hstate hs
  | synSent =>
    simp only [rxSynSent]
    split
    · rename_i hflags
      split
      · -- the handshake is finished with one acknowledgement
        rw [Bool.and_eq_true] at hflags
        obtain ⟨ps, hsent, hacks⟩ := tcpTx_ack (t.modify sock fun s =>
          { s with state := .established, rcvNxt := tcp.seq + 1, sndUna := tcp.ack }) sock
        rw [modify_heap, Function.update_self] at hacks
        have hlen : ps.length ≤ 1 := by
          have hone := length_tcpTx_sent (t.modify sock fun s =>
            { s with state := .established, rcvNxt := tcp.seq + 1, sndUna := tcp.ack }) sock
              tcpAck noData 0
          rw [hsent, List.length_append] at hone
          omega
        exact ⟨ps, hsent, .acks hacks hports hlen (two_le_segmentWeight hflags.1 n)⟩
      · exact hquiet _ rfl
    · exact hquiet _ rfl
  | synRecv => exact hquiet _ (honAck _)
  | established =>
    simp only
    obtain ⟨ps, hsent, hacks⟩ := rxEstablished_acks t sock tcp payload len
    have hcount := length_rxEstablished_sent t sock tcp payload len
    rw [hsent, List.length_append, Nat.add_assoc] at hcount
    refine ⟨ps, hsent, .acks hacks hports (Nat.le_of_add_le_add_left hcount) ?_⟩
    have hdata : 0 < len → 0 < n := fun hpos => lt_of_lt_of_le (UInt16.lt_iff_toNat_lt.1 hpos) hn
    by_cases hheavy : 0 < n ∨ hasFlag tcp.flags tcpFin = true
    · rw [segmentWeight, if_pos hheavy]
      split <;> split <;> decide
    · rw [not_or] at hheavy
      rw [if_neg fun hpos => hheavy.1 (hdata hpos), if_neg hheavy.2]
      exact segmentWeight_pos ..
  | closeWait => exact hquiet _ (honAck _)
  | lastAck => exact hquiet _ (honAck _)
  | _ => exact hquiet _ rfl

/-! ## Who listens -/

/-- Where the sockets accept what they did and none starts to listen, the
pair of ports is listened to no more than before. -/
theorem Stack.Listens.of_keeps (hsockets : t'.sockets = t.sockets)
    (hkeeps : ∀ x ∈ t.sockets, (t'.heap x).accepts a b = (t.heap x).accepts a b ∧
      ((t'.heap x).state = .listen → (t.heap x).state = .listen))
    (h : t'.Listens a b) : t.Listens a b := by
  obtain ⟨x, hfound, hlisten⟩ := h
  rw [Stack.lookup, hsockets, List.find?_congr fun x hx => (hkeeps x hx).1] at hfound
  exact ⟨x, hfound, (hkeeps x (List.mem_of_find?_eq_some hfound)).2 hlisten⟩

/-- The pairs of ports of a set that are listened to. -/
def Stack.listening (t : Stack) (pairs : Finset (UInt16 × UInt16)) : ℕ :=
  (pairs.filter fun q => t.Listens q.1 q.2).card

theorem listening_le (h : ∀ a b, t'.Listens a b → t.Listens a b)
    (pairs : Finset (UInt16 × UInt16)) : t'.listening pairs ≤ t.listening pairs :=
  Finset.card_le_card (Finset.monotone_filter_right _ fun q _ => h q.1 q.2)

theorem listening_lt {pairs : Finset (UInt16 × UInt16)} (h : ∀ a b, t'.Listens a b → t.Listens a b)
    (hin : (a, b) ∈ pairs) (hbefore : t.Listens a b) (hafter : ¬ t'.Listens a b) :
    t'.listening pairs + 1 ≤ t.listening pairs := by
  refine Finset.card_lt_card (Finset.ssubset_iff_of_subset ?_ |>.2 ⟨(a, b), ?_, ?_⟩)
  · exact Finset.monotone_filter_right _ fun q _ => h q.1 q.2
  · exact Finset.mem_filter.2 ⟨hin, hbefore⟩
  · exact fun hmem => hafter (Finset.mem_filter.1 hmem).2

/-- **A listening socket takes a SYN**: the new socket has the ports of the
segment, and so has the answer, if there is memory for it. -/
theorem rxListen_new (hsyn : hasFlag tcp.flags tcpSyn = true) (haddr : (kmalloc t).1.addr ≠ 0)
    (hne : (kmalloc t).1.addr ≠ sock) :
    let r := rxListen t sock tcp
    ∃ s, (s.state = .synRecv ∧ s.localPort = (t.heap sock).localPort ∧
        s.remotePort = tcp.srcPort) ∧
      r.heap = Function.update t.heap (kmalloc t).1.addr s ∧
      r.sockets = (kmalloc t).1.addr :: t.sockets ∧
      ∃ ps, r.sent = t.sent ++ ps ∧ (s.localPort = tcp.dstPort → ∀ p ∈ ps, p.Replies tcp) ∧
        (ps.map Packet.weight).sum ≤ 2 := by
  intro r
  obtain ⟨hnull, -⟩ | ⟨-, hfst, hsockets, hsent, s₀, -, hheap⟩ := tcpSocket_cases t
  · exact absurd hnull haddr
  simp only [r, rxListen, if_pos hsyn, hfst, if_neg haddr]
  generalize (tcpSocket t).2 = t₁ at *
  generalize (kmalloc t).1.addr = new at *
  have hlistener : t₁.heap sock = t.heap sock := by
    rw [hheap, Function.update_of_ne hne.symm]
  refine ⟨(t₁.heap new).accept (t₁.heap sock) tcp, ⟨rfl, ?_, rfl⟩, ?_, ?_, ?_⟩
  · rw [← hlistener]
    rfl
  · rw [tcpTx_synAck_heap, modify_heap, hheap, Function.update_idem]
  · rw [tcpTx_sockets, modify_sockets, hsockets]
  · rcases tcpTx_packet (t₁.modify new fun s => s.accept (t₁.heap sock) tcp) new (tcpSyn ||| tcpAck)
      noData 0 with hnone | hone
    · refine ⟨[], ?_, fun _ p hp => absurd hp List.not_mem_nil, Nat.zero_le _⟩
      rw [hnone, modify_sent, hsent, List.append_nil]
    · refine ⟨_, by rw [hone, modify_sent, hsent], fun hport p hp => ?_, ?_⟩
      · obtain rfl := List.mem_singleton.1 hp
        rw [modify_heap, Function.update_self]
        exact ⟨hport, rfl, rfl⟩
      · have hweight : segmentWeight (tcpSyn ||| tcpAck) 0 ≤ 2 := by decide
        rw [List.map_singleton, List.sum_singleton]
        exact hweight

/-- **What a listening socket answers**: if anything, a SYN by a SYN, and
then the pair of ports has a socket of its own. -/
theorem rx_answers_listen {n : ℕ} (payload : ℕ → UInt8) (len : UInt16)
    (hfresh : (kmalloc t).1.addr ≠ 0 → (kmalloc t).1.addr ∉ t.sockets)
    (h : t.lookup tcp.dstPort tcp.srcPort = some sock) (hs : (t.heap sock).state = .listen) :
    let r := tcpRx t tcp payload len
    (∀ a b, r.Listens a b → t.Listens a b) ∧ ∃ ps, r.sent = t.sent ++ ps ∧
      (∀ p ∈ ps, p.Replies tcp) ∧ (Answers tcp n ps ∨
        (ps.map Packet.weight).sum ≤ segmentWeight tcp.flags n ∧
          ¬ r.Listens tcp.dstPort tcp.srcPort) := by
  intro r
  have hr : r = rxListen t sock tcp := tcpRx_listen h hs
  rcases rxListen_cases t sock tcp with ⟨-, hheap, hsockets, hsent⟩ | ⟨⟨hsyn, haddr⟩, -⟩
  · refine ⟨fun a b => .of_keeps (by rw [hr, hsockets]) fun x _ => ?_, [], ?_, ?_, ?_⟩
    · rw [hr, hheap]
      exact ⟨rfl, id⟩
    · rw [hr, hsent, List.append_nil]
    · exact fun p hp => absurd hp List.not_mem_nil
    · exact Or.inl (.none tcp n)
  · have hin : sock ∈ t.sockets := List.mem_of_find?_eq_some h
    have hnew := hfresh haddr
    obtain ⟨s, ⟨hstate, hlocal, hremote⟩, hheap, hsockets, ps, hsent, hreplies, hsum⟩ :=
      rxListen_new hsyn haddr fun heq => hnew (heq ▸ hin)
    rw [← hr] at hheap hsockets hsent
    rw [lookup_localPort h] at hlocal
    -- the new socket comes first, and does not listen
    have hlookup : ∀ a b, r.Listens a b → s.accepts a b = false ∧ t.Listens a b := by
      rintro a b ⟨x, hfound, hlisten⟩
      rw [Stack.lookup, hsockets, List.find?_cons, hheap, Function.update_self] at hfound
      cases haccepts : s.accepts a b with
      | true =>
        rw [haccepts] at hfound
        obtain rfl := Option.some.inj hfound
        rw [hheap, Function.update_self, hstate] at hlisten
        exact TcpState.noConfusion hlisten
      | false =>
        rw [haccepts] at hfound
        have hold : ∀ y ∈ t.sockets, r.heap y = t.heap y := by
          intro y hy
          rw [hheap, Function.update_of_ne]
          rintro rfl
          exact hnew hy
        have hsame : t.lookup a b = some x :=
          (List.find?_congr fun y hy => by rw [← hheap, hold y hy]).symm.trans hfound
        rw [hold x (List.mem_of_find?_eq_some hsame)] at hlisten
        exact ⟨rfl, x, hsame, hlisten⟩
    refine ⟨fun a b hc => (hlookup a b hc).2, ps, hsent, hreplies hlocal, Or.inr ⟨?_, fun hc => ?_⟩⟩
    · exact hsum.trans (two_le_segmentWeight hsyn n)
    · have hrefused := (hlookup _ _ hc).1
      rw [Socket.accepts, hlocal, hremote, beq_self_eq_true, beq_self_eq_true] at hrefused
      exact Bool.noConfusion hrefused

/-- A segment that a socket takes changes no port, and starts no
listening. -/
theorem rx_listens {payload : ℕ → UInt8} (h : t.lookup tcp.dstPort tcp.srcPort = some sock)
    (hs : (t.heap sock).state ≠ .listen) (hlistens : (tcpRx t tcp payload len).Listens a b) :
    t.Listens a b := by
  refine hlistens.of_keeps (tcpRx_sockets payload len h hs) fun x _ => ?_
  rw [tcpRx_heap payload len h hs]
  by_cases hx : x = sock
  · subst hx
    rw [Function.update_self]
    refine ⟨((Moves.rx tcp payload len h hs).accepts rfl a b).1, fun hc => ?_⟩
    exact absurd hc (Socket.receive_not_listen hs tcp payload len)
  · rw [Function.update_of_ne hx]
    exact ⟨rfl, id⟩

/-! ## One event -/

/-- **One arrival**: what it brings about is less than what it was, or it
leaves one pair of ports fewer to listen to. -/
theorem rx_lowers {n : ℕ} (payload : ℕ → UInt8) (hn : len.toNat ≤ n)
    (hfresh : (kmalloc t).1.addr ≠ 0 → (kmalloc t).1.addr ∉ t.sockets)
    {pairs : Finset (UInt16 × UInt16)} (hin : (tcp.dstPort, tcp.srcPort) ∈ pairs) :
    let r := tcpRx t tcp payload len
    ∃ ps, r.sent = t.sent ++ ps ∧ (∀ p ∈ ps, p.Replies tcp) ∧
      (ps.map Packet.weight).sum + r.listening pairs + 1 ≤
        segmentWeight tcp.flags n + t.listening pairs := by
  intro r
  have hless : ∀ ps, Answers tcp n ps → (∀ a b, r.Listens a b → t.Listens a b) →
      (ps.map Packet.weight).sum + r.listening pairs + 1 ≤
        segmentWeight tcp.flags n + t.listening pairs := by
    intro ps hanswers hlistens
    have hle := listening_le hlistens pairs
    have hweight := hanswers.less
    omega
  cases hfound : t.lookup tcp.dstPort tcp.srcPort with
  | none =>
    have hr : r = t := tcpRx_none hfound
    refine ⟨[], ?_, (Answers.none tcp n).replies, hless [] (.none tcp n) ?_⟩
    · rw [hr, List.append_nil]
    · rw [hr]
      exact fun a b hc => hc
  | some sock =>
    by_cases hs : (t.heap sock).state = .listen
    · obtain ⟨hlistens, ps, hsent, hreplies, hanswers | ⟨hweight, hafter⟩⟩ :=
        rx_answers_listen (n := n) payload len hfresh hfound hs
      · exact ⟨ps, hsent, hreplies, hless ps hanswers hlistens⟩
      · have hlt : r.listening pairs + 1 ≤ t.listening pairs :=
          listening_lt hlistens hin ⟨sock, hfound, hs⟩ hafter
        exact ⟨ps, hsent, hreplies, by omega⟩
    · obtain ⟨ps, hsent, hanswers⟩ := rx_answers payload hn hfound hs
      exact ⟨ps, hsent, hanswers.replies, hless ps hanswers fun a b hc => rx_listens hfound hs hc⟩

theorem arrive_lowers {mem : List Block} (hfresh : Fresh t (p.arrive mem))
    {pairs : Finset (UInt16 × UInt16)} (hin : (p.tcp.dstPort, p.tcp.srcPort) ∈ pairs) :
    ∃ ps, (t.step (p.arrive mem)).sent = t.sent ++ ps ∧
      (∀ q ∈ ps, q.Replies p.tcp) ∧
      (ps.map Packet.weight).sum + (t.step (p.arrive mem)).listening pairs + 1 ≤
        p.weight + t.listening pairs := by
  refine rx_lowers (t := t.given mem) _ (UInt16.toNat_ofNat'.le.trans (Nat.mod_le ..)) ?_ hin
  intro haddr hmem
  exact hfresh.ne hmem haddr rfl

/-- The calls that send nothing. -/
def Op.quiet : Op → Bool
  | .recv _ _ => true
  | .timerTick => true
  | _ => false

/-- **A quiet call** sends nothing and starts no listening. -/
theorem quiet_step (hfresh : Fresh t c) (hquiet : c.op.quiet = true) :
    (t.step c).sent = t.sent ∧ ∀ a b, (t.step c).Listens a b → t.Listens a b := by
  have hsent : (t.step c).sent = t.sent := by
    have hnone : t.txCalls c = [] := by
      unfold Stack.txCalls
      generalize c.op = op at hquiet
      cases op with
      | recv sock len => rfl
      | timerTick => rfl
      | _ => exact absurd hquiet Bool.noConfusion
    rw [(accounts_step t c).sent, hnone, List.flatMap_nil, List.append_nil]
  have hsockets : (t.step c).sockets = t.sockets := by
    rcases step_sockets t c with hsame | ⟨new, s, -, -, -, -, -, -, hop⟩ | ⟨hop, -⟩
    · exact hsame
    · rcases hop with hop | ⟨tcp, payload, len, hop⟩ <;> rw [hop] at hquiet <;>
        exact absurd hquiet Bool.noConfusion
    · rw [hop] at hquiet
      exact absurd hquiet Bool.noConfusion
  refine ⟨hsent, fun a b hc => hc.of_keeps hsockets fun x hx => ?_⟩
  generalize hs : (t.step c).heap x = s
  have hmoves := step_moves hfresh hx
  rw [hs] at hmoves
  generalize c.op = op at *
  cases hmoves with
  | same => exact ⟨rfl, id⟩
  | recv len => exact ⟨rfl, id⟩
  | tick n =>
    refine ⟨((Moves.tick n).accepts rfl a b).1, fun hlisten => ?_⟩
    obtain ⟨state, timer, heq, hstate | hstate⟩ := tick_iterate n (t.heap x)
    · rw [heq] at hlisten
      exact hstate.symm.trans hlisten
    · rw [heq] at hlisten
      exact absurd (hstate.symm.trans hlisten) TcpState.noConfusion
  | _ => exact absurd hquiet Bool.noConfusion

/-! ## The network -/

/-- **Hosts, and the segments on their way** between them. -/
structure Wire (ι : Type*) where
  stack : ι → Stack
  flight : List Packet

/-- What happens: a segment arrives at a host, one is lost, a host makes a
call. -/
inductive Wire.Event (ι : Type*)
  | arrive (host : ι) (k : ℕ) (mem : List Block)
  | lose (k : ℕ)
  | call (host : ι) (c : Call)

variable {ι : Type*} {w : Wire ι} {e : Wire.Event ι} {pairs : Finset (UInt16 × UInt16)}

/-- A call at a host: what it sends is on its way then. -/
def Wire.call [DecidableEq ι] (w : Wire ι) (i : ι) (c : Call) : Wire ι where
  stack := Function.update w.stack i ((w.stack i).step c)
  flight := w.flight ++ sentSince (w.stack i) ((w.stack i).step c)

/-- One event. -/
def Wire.step [DecidableEq ι] (w : Wire ι) : Wire.Event ι → Wire ι
  | .arrive i k mem =>
    match w.flight[k]? with
    | none => w
    | some p => Wire.call { w with flight := w.flight.eraseIdx k } i (p.arrive mem)
  | .lose k => { w with flight := w.flight.eraseIdx k }
  | .call i c => w.call i c

/-- **What may happen**: any segment arrives at any host or is lost, and
hosts make calls of some kinds. -/
def Wire.Event.Ok (calls : Op → Bool) (w : Wire ι) : Wire.Event ι → Prop
  | .arrive i k mem => k < w.flight.length ∧ ∀ p ∈ w.flight[k]?, Fresh (w.stack i) (p.arrive mem)
  | .lose k => k < w.flight.length
  | .call i c => Fresh (w.stack i) c ∧ calls c.op = true

instance Wire.Event.Ok.decidable (calls : Op → Bool) (w : Wire ι) :
    ∀ e : Wire.Event ι, Decidable (e.Ok calls w)
  | .arrive i k mem => inferInstanceAs (Decidable
      (k < w.flight.length ∧ ∀ p ∈ w.flight[k]?, Fresh (w.stack i) (p.arrive mem)))
  | .lose k => inferInstanceAs (Decidable (k < w.flight.length))
  | .call i c => inferInstanceAs (Decidable (Fresh (w.stack i) c ∧ calls c.op = true))

/-- The events that take a segment out of the network. -/
def Wire.Event.takes : Wire.Event ι → Bool
  | .arrive _ _ _ => true
  | .lose _ => true
  | .call _ _ => false

/-- The pairs of ports of what is on its way, in both directions. -/
def Wire.portPairs (w : Wire ι) : Finset (UInt16 × UInt16) :=
  (w.flight.map (fun p => (p.tcp.dstPort, p.tcp.srcPort)) ++
    w.flight.map fun p => (p.tcp.srcPort, p.tcp.dstPort)).toFinset

/-- What is on its way has ports of these, and so have its answers. -/
def Wire.Covered (w : Wire ι) (pairs : Finset (UInt16 × UInt16)) : Prop :=
  ∀ p ∈ w.flight, (p.tcp.dstPort, p.tcp.srcPort) ∈ pairs ∧ (p.tcp.srcPort, p.tcp.dstPort) ∈ pairs

theorem Wire.covered_portPairs (w : Wire ι) : w.Covered w.portPairs := by
  intro p hp
  rw [Wire.portPairs, List.mem_toFinset, List.mem_toFinset, List.mem_append, List.mem_append,
    List.mem_map, List.mem_map, List.mem_map, List.mem_map]
  exact ⟨Or.inl ⟨p, hp, rfl⟩, Or.inr ⟨p, hp, rfl⟩⟩

theorem Wire.card_portPairs (w : Wire ι) : w.portPairs.card ≤ 2 * w.flight.length := by
  refine (List.toFinset_card_le _).trans ?_
  rw [List.length_append, List.length_map, List.length_map, Nat.two_mul]

/-- What may still be brought about. -/
def Wire.potential [Fintype ι] (pairs : Finset (UInt16 × UInt16)) (w : Wire ι) : ℕ :=
  (w.flight.map Packet.weight).sum + ∑ i, (w.stack i).listening pairs

/-- At most 3 for each segment, and the pairs of ports at each host. -/
theorem Wire.potential_le [Fintype ι] (w : Wire ι) (pairs : Finset (UInt16 × UInt16)) :
    w.potential pairs ≤ w.flight.length * 3 + Fintype.card ι * pairs.card := by
  have hweight : (w.flight.map Packet.weight).sum ≤ (w.flight.map Packet.weight).length • 3 :=
    List.sum_le_card_nsmul _ _ (List.forall_mem_map.2 fun p _ => segmentWeight_le ..)
  have hlistening : ∑ i, (w.stack i).listening pairs ≤ Finset.univ.card • pairs.card :=
    Finset.sum_le_card_nsmul _ _ _ fun i _ => Finset.card_filter_le ..
  rw [List.length_map, smul_eq_mul] at hweight
  rw [Finset.card_univ, smul_eq_mul] at hlistening
  exact Nat.add_le_add hweight hlistening

/-- At least 1 for each segment. -/
theorem Wire.length_le_potential [Fintype ι] (w : Wire ι) (pairs : Finset (UInt16 × UInt16)) :
    w.flight.length ≤ w.potential pairs := by
  have hweight : (w.flight.map Packet.weight).length • 1 ≤ (w.flight.map Packet.weight).sum :=
    List.card_nsmul_le_sum _ _ (List.forall_mem_map.2 fun p _ => segmentWeight_pos ..)
  rw [List.length_map, smul_eq_mul, Nat.mul_one] at hweight
  exact hweight.trans (Nat.le_add_right ..)

/-- **Every event keeps the ports**, and lowers the potential if it takes a
segment. -/
theorem Wire.step_lowers [Fintype ι] [DecidableEq ι] (hcovered : w.Covered pairs)
    (hok : e.Ok Op.quiet w) :
    (w.step e).Covered pairs ∧
      (w.step e).potential pairs + (bif e.takes then 1 else 0) ≤ w.potential pairs := by
  cases e with
  | arrive i k mem =>
    obtain ⟨p, hk⟩ : ∃ p, w.flight[k]? = some p := ⟨_, List.getElem?_eq_getElem hok.1⟩
    have hfresh := hok.2 p hk
    obtain ⟨hin, hback⟩ := hcovered p (List.mem_of_getElem? hk)
    obtain ⟨ps, hsent, hreplies, hlower⟩ := arrive_lowers hfresh hin
    have hflight : (w.step (.arrive i k mem)).flight = w.flight.eraseIdx k ++ ps := by
      simp only [Wire.step, hk, Wire.call]
      rw [sentSince, hsent, List.drop_left]
    have hstack : (w.step (.arrive i k mem)).stack =
        Function.update w.stack i ((w.stack i).step (p.arrive mem)) := by
      simp only [Wire.step, hk, Wire.call]
    refine ⟨fun q hq => ?_, ?_⟩
    · rw [hflight, List.mem_append] at hq
      rcases hq with hq | hq
      · exact hcovered q (List.mem_of_mem_eraseIdx hq)
      · rw [(hreplies q hq).srcPort, (hreplies q hq).dstPort]
        exact ⟨hback, hin⟩
    · have herase := sum_eraseIdx hk Packet.weight
      have hupdate := sum_update w.stack (fun t => t.listening pairs) i
        ((w.stack i).step (p.arrive mem))
      rw [Wire.potential, Wire.potential, hflight, hstack, List.map_append, List.sum_append]
      simp only [Wire.Event.takes, cond_true]
      omega
  | lose k =>
    obtain ⟨p, hk⟩ : ∃ p, w.flight[k]? = some p := ⟨_, List.getElem?_eq_getElem hok⟩
    refine ⟨fun q hq => hcovered q (List.mem_of_mem_eraseIdx hq), ?_⟩
    have herase := sum_eraseIdx hk Packet.weight
    have hpos : 1 ≤ p.weight := segmentWeight_pos ..
    simp only [Wire.potential, Wire.step, Wire.Event.takes, cond_true]
    omega
  | call i c =>
    obtain ⟨hsent, hlistens⟩ := quiet_step hok.1 hok.2
    have hflight : (w.step (.call i c)).flight = w.flight := by
      simp only [Wire.step, Wire.call]
      rw [sentSince_self hsent.symm, List.append_nil]
    have hle := listening_le hlistens pairs
    have hupdate := sum_update w.stack (fun t => t.listening pairs) i ((w.stack i).step c)
    refine ⟨fun q hq => hcovered q (hflight ▸ hq), ?_⟩
    rw [Wire.potential, Wire.potential, hflight]
    simp only [Wire.step, Wire.call, Wire.Event.takes, cond_false]
    omega

/-- **A network comes to rest.** Hosts in any state that only read and tick
exchange no more than so many segments for each one on its way at first,
counting those that are lost and those still on their way, whatever
arrives where and in which order. -/
theorem comes_to_rest [Fintype ι] [DecidableEq ι] (w : Wire ι) {events : List (Wire.Event ι)}
    (h : Allowed Wire.step (fun w e => Wire.Event.Ok Op.quiet w e) w events) :
    events.countP Wire.Event.takes + (runFrom Wire.step w events).flight.length ≤
      (2 * Fintype.card ι + 3) * w.flight.length := by
  have hrun : events.countP Wire.Event.takes +
      (runFrom Wire.step w events).potential w.portPairs ≤ w.potential w.portPairs :=
    h.countP_le (I := fun v => v.Covered w.portPairs)
      (fun _ _ hcovered hok => (Wire.step_lowers hcovered hok).1)
      (fun _ _ hcovered hok => (Wire.step_lowers hcovered hok).2) w.covered_portPairs
  have hend := (runFrom Wire.step w events).length_le_potential w.portPairs
  have hstart : w.potential w.portPairs ≤ (2 * Fintype.card ι + 3) * w.flight.length := by
    calc w.potential w.portPairs ≤ w.flight.length * 3 + Fintype.card ι * w.portPairs.card :=
          w.potential_le w.portPairs
      _ ≤ w.flight.length * 3 + Fintype.card ι * (2 * w.flight.length) :=
          Nat.add_le_add_left (Nat.mul_le_mul_left _ w.card_portPairs) _
      _ = (2 * Fintype.card ι + 3) * w.flight.length := by ring
  omega

/-- A SYN to a listening host, whose answer is answered. -/
theorem comes_to_rest_handshake :
    let client : Socket := { Socket.zero with
      state := .synSent, localPort := 5000, remotePort := 80, sndUna := 6, sndNxt := 7 }
    let listener : Socket := { Socket.zero with state := .listen, localPort := 80 }
    let w : Wire Bool :=
      { stack := fun b => { tcpInit (fun _ => bif b then listener else client) none with
          sockets := [1] }
        flight := [⟨0, txHeader { client with sndNxt := 6 } tcpSyn noData 0, [], 20⟩] }
    let memory : List Block := [⟨2, noData⟩, ⟨3, noData⟩, ⟨4, noData⟩, ⟨5, noData⟩]
    let events : List (Wire.Event Bool) := [.arrive true 0 memory, .call true ⟨.timerTick, []⟩,
      .arrive false 0 memory, .arrive true 0 []]
    let v := runFrom Wire.step w events
    ((v.stack false).heap 1).state = .established ∧ ((v.stack true).heap 2).state = .established ∧
      events.countP Wire.Event.takes + v.flight.length ≤ 7 := by
  intro client listener w memory events v
  have hrun : Allowed Wire.step (fun w e => e.Ok Op.quiet w) w events := by decide +kernel
  exact ⟨by decide +kernel, by decide +kernel, comes_to_rest w hrun⟩

end Tcp

end Kos
