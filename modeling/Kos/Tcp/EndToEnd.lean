import Kos.Tcp.Transmit
/-!
# Tcp — a connection with two ends

Two ends of a connection, each with a stack of its own, and a network
between them that may lose what is sent, repeat it and change its order.
Each end writes, reads and closes as it likes, and has other sockets
besides. In every state of every run, what one end has read, with what
waits for it there, is what the other wrote, from its start: no byte is
changed, repeated or out of order, in either direction.
-/

namespace Kos

namespace Tcp

variable {t : Stack} {sock : ℕ} {c : Call} {s s' : Socket} {stream returned : List UInt8}
  {isn : UInt32} {n : ℕ} {e : End} {op : Op}

/-- The arrival of a packet. -/
def Packet.arrive (p : Packet) (mem : List Block) : Call :=
  ⟨.rx p.tcp (fun i => p.data.getD i 0) (UInt16.ofNat p.data.length), mem⟩

/-- What happens: a call at one end, or the arrival there of the `k`th
segment the other has sent. -/
inductive Act
  | call (b : Bool) (c : Call)
  | deliver (b : Bool) (k : ℕ) (mem : List Block)

/-- One step of the two ends. -/
def Pair.step (socks : Bool → ℕ) (e : Bool → End) : Act → Bool → End
  | .call b c => Function.update e b ((e b).step (socks b) c)
  | .deliver b k mem =>
    match (e (!b)).log[k]? with
    | none => e
    | some p => Function.update e b ((e b).step (socks b) (p.arrive mem))

/-- A segment that arrives from elsewhere is not for the socket. -/
def Call.Elsewhere (t : Stack) (sock : ℕ) (c : Call) : Prop :=
  match c.op with
  | .rx tcp _ _ => t.lookup tcp.dstPort tcp.srcPort ≠ some sock
  | _ => True

instance Call.Elsewhere.decidable (t : Stack) (sock : ℕ) (c : Call) :
    Decidable (c.Elsewhere t sock) :=
  match c with
  | ⟨.rx tcp _ _, _⟩ => inferInstanceAs (Decidable (t.lookup tcp.dstPort tcp.srcPort ≠ some sock))
  | ⟨.socket, _⟩ | ⟨.bind _ _ _, _⟩ | ⟨.listen _, _⟩ | ⟨.connect _ _ _, _⟩ | ⟨.send _ _ _, _⟩
  | ⟨.recv _ _, _⟩ | ⟨.close _, _⟩ | ⟨.timerTick, _⟩ | ⟨.cleanup, _⟩ => isTrue trivial

/-- **What may happen**: the connection lasts at both ends, and segments
for it come from the other end. -/
def Act.Ok (socks : Bool → ℕ) (e : Bool → End) : Act → Prop
  | .call b c => (e b).Lasts (socks b) c ∧ c.Elsewhere (e b).stack (socks b)
  | .deliver b k mem => ∀ p ∈ (e (!b)).log[k]?, (e b).Lasts (socks b) (p.arrive mem)

instance Act.Ok.decidable (socks : Bool → ℕ) (e : Bool → End) : ∀ a : Act, Decidable (a.Ok socks e)
  | .call b c =>
    inferInstanceAs (Decidable ((e b).Lasts (socks b) c ∧ c.Elsewhere (e b).stack (socks b)))
  | .deliver b k mem =>
    inferInstanceAs (Decidable (∀ p ∈ (e (!b)).log[k]?, (e b).Lasts (socks b) (p.arrive mem)))

/-- **Two ends that agree**: both are established with nothing queued, and
each expects what the other sends next. -/
structure Joined (socks : Bool → ℕ) (t : Bool → Stack) : Prop where
  listed : ∀ b, socks b ∈ (t b).sockets
  established : ∀ b, ((t b).heap (socks b)).state = .established
  empty : ∀ b, ((t b).heap (socks b)).rxHead = ((t b).heap (socks b)).rxTail
  agree : ∀ b, ((t b).heap (socks b)).rcvNxt = ((t (!b)).heap (socks (!b))).sndNxt

/-! ## One end -/

/-- **The stream goes on**: what was a prefix stays one. -/
theorem Socket.Follows.append (h : s.Follows stream isn returned n) (more : List UInt8) :
    s.Follows (stream ++ more) isn returned n := by
  refine ⟨h.avail, ?_, ?_, h.next⟩
  · rw [List.length_append]
    exact Nat.le_add_right_of_le h.bound
  · rw [List.take_append_of_le_length h.bound]
    exact h.bytes

/-- A segment in one of the states of an open connection. -/
theorem Socket.Follows.receive_open {off : ℕ} {tcp : TcpHeader} {payload : ℕ → UInt8} {len : UInt16}
    (h : s.Follows stream isn returned n) (hopen : s.Open)
    (hlasts : (s.receive tcp payload len).state ≠ .closed)
    (hslice : SliceAt stream isn off tcp payload len) (hlen : stream.length < 2 ^ 31) :
    ∃ n', (s.receive tcp payload len).Follows stream isn returned n' := by
  have hplace : s.state = .established → 0 < len → tcp.seq = s.rcvNxt → off = n := by
    intro hs _ hseq
    refine offset_eq isn hlen ((Nat.le_add_right ..).trans hslice.1) h.bound ?_
    rw [← hslice.2.1, hseq, h.next hs]
  rcases hopen with hs | hs | hs | hs
  · exact (h.receive (Or.inl hs) hslice hplace).1
  · exact (h.receive (Or.inr (Or.inl hs)) hslice hplace).1
  · have hsame : s.receive tcp payload len = s := by simp [Socket.receive, hs]
    rw [hsame]
    exact ⟨n, h⟩
  · -- an acknowledgement would close it
    have hsame : s.receive tcp payload len = s := by
      simp only [Socket.receive, hs] at hlasts ⊢
      split
      · rename_i hack
        rw [if_pos hack] at hlasts
        exact absurd rfl hlasts
      · rfl
    rw [hsame]
    exact ⟨n, h⟩

/-- **A call that reads nothing** leaves the prefix, or a slice of the stream
extends it. -/
theorem Socket.Follows.moves (hmoves : Moves t sock op s)
    (h : (t.heap sock).Follows stream isn returned n) (hopen : (t.heap sock).Open)
    (hlasts : s.state ≠ .closed) (hlen : stream.length < 2 ^ 31)
    (hrecv : ∀ len, op ≠ .recv sock len)
    (hrx : ∀ tcp payload len, op = .rx tcp payload len →
      t.lookup tcp.dstPort tcp.srcPort = some sock →
        ∃ off, SliceAt stream isn off tcp payload len) :
    ∃ n', s.Follows stream isn returned n' := by
  have hnotClosed : (t.heap sock).state ≠ .closed := by
    rcases hopen with hs | hs | hs | hs <;> rw [hs] <;> exact TcpState.noConfusion
  cases hmoves with
  | same => exact ⟨n, h⟩
  | bind addr port hclosed => exact absurd hclosed hnotClosed
  | listen hclosed => exact absurd hclosed hnotClosed
  | connect addr port s hclosed => exact absurd hclosed hnotClosed
  | send data len sndNxt => exact ⟨n, h.of_eq rfl rfl rfl h.next⟩
  | recv len _ => exact absurd rfl (hrecv len)
  | close sndNxt =>
    refine ⟨n, h.of_eq rfl rfl rfl fun hc => ?_⟩
    -- no state is established after `tcp_close`
    rcases hopen with hs | hs | hs | hs <;> simp [hs, TcpState.afterClose] at hc
  | tick m =>
    obtain ⟨state, timer, heq, hstate⟩ := tick_iterate m (t.heap sock)
    rw [heq] at hlasts ⊢
    have hsame : state = (t.heap sock).state := hstate.resolve_right hlasts
    exact ⟨n, h.of_eq rfl rfl rfl fun hc => h.next (hsame.symm.trans hc)⟩
  | rx tcp payload len hfound _ =>
    obtain ⟨off, hslice⟩ := hrx tcp payload len rfl hfound
    exact h.receive_open hopen hlasts hslice hlen

/-- **`tcp_recv` moves bytes from the queue to those returned.** -/
theorem Socket.Follows.recv (h : (t.heap sock).Follows stream isn returned n) (len : UInt16)
    (mem : List Block) :
    ((t.step ⟨.recv sock len, mem⟩).heap sock).Follows stream isn
      (returned ++ t.reads sock ⟨.recv sock len, mem⟩) n := by
  have hsame : ∀ r : Option (List UInt8) × Stack, r.1.getD [] = [] → r.2.heap = t.heap →
      (r.2.heap sock).Follows stream isn (returned ++ r.1.getD []) n := by
    intro r hr hheap
    rw [hr, hheap, List.append_nil]
    exact h
  simp only [Stack.step, Stack.reads, if_true]
  unfold tcpRecv
  split
  · exact hsame _ rfl rfl
  · split
    · exact hsame _ rfl rfl
    · split
      · exact hsame _ rfl rfl
      · rw [modify_heap, Function.update_self]
        exact h.fetched len

/-- **What an end has read** of the stream of the other. -/
def End.Incoming (sock : ℕ) (stream : List UInt8) (isn : UInt32) (e : End) : Prop :=
  ∃ n, (e.stack.heap sock).Follows stream isn e.returned n

/-- **A call keeps what was read a prefix**, if what it brings is a slice of
the stream. -/
theorem End.Incoming.step {lport rport : UInt16} {isn' : UInt32} (h : e.Incoming sock stream isn)
    (hout : e.Outgoing sock isn' lport rport) (hlasts : e.Lasts sock c)
    (hlen : stream.length < 2 ^ 31)
    (hrx : ∀ tcp payload len, c.op = .rx tcp payload len →
      e.stack.lookup tcp.dstPort tcp.srcPort = some sock →
        ∃ off, SliceAt stream isn off tcp payload len) :
    (e.step sock c).Incoming sock stream isn := by
  obtain ⟨n, hn⟩ := h
  obtain ⟨op, mem⟩ := c
  by_cases hrecv : ∃ len, op = .recv sock len
  · obtain ⟨len, rfl⟩ := hrecv
    exact ⟨n, hn.recv len mem⟩
  · have hreads : e.stack.reads sock ⟨op, mem⟩ = [] := by
      cases op with
      | recv x len => exact if_neg fun hx => hrecv ⟨len, by rw [hx]⟩
      | _ => rfl
    have hmoves : Moves e.stack sock op ((e.stack.step ⟨op, mem⟩).heap sock) :=
      step_moves hlasts.1 hout.listed
    obtain ⟨n', hn'⟩ := hn.moves hmoves hout.isOpen hlasts.2 hlen
      (fun len hop => hrecv ⟨len, hop⟩) hrx
    refine ⟨n', ?_⟩
    simp only [End.step, hreads, List.append_nil]
    exact hn'

/-- A packet of the log is a slice of what was written. -/
theorem Placed.sliceAt {lport rport : UInt16} {p : Packet} (h : Placed stream isn lport rport p) :
    ∃ off, SliceAt stream isn off p.tcp (fun i => p.data.getD i 0)
      (UInt16.ofNat p.data.length) := by
  obtain ⟨off, hle, hseq, hdata⟩ := h.slice
  have hlen : (UInt16.ofNat p.data.length).toNat = p.data.length :=
    UInt16.toNat_ofNat_of_lt' h.length_lt
  refine ⟨off, by rw [hlen]; exact hle, hseq, fun i hi => ?_⟩
  rw [hlen] at hi
  calc stream[off + i]? = (stream.drop off)[i]? := List.getElem?_drop.symm
    _ = ((stream.drop off).take p.data.length)[i]? := (List.getElem?_take_of_lt hi).symm
    _ = p.data[i]? := by rw [← hdata]
    _ = some (p.data.getD i 0) := by
      rw [List.getD_eq_getElem?_getD, List.getElem?_eq_getElem hi, Option.getD_some]

/-! ## Both ends -/

/-- **The invariant of the two ends.** -/
structure Pair.Inv (socks : Bool → ℕ) (t : Bool → Stack) (e : Bool → End) : Prop where
  outgoing : ∀ b, (e b).Outgoing (socks b) ((t b).heap (socks b)).sndNxt
    ((t b).heap (socks b)).localPort ((t b).heap (socks b)).remotePort
  incoming : ∀ b, (e b).Incoming (socks b) (e (!b)).written ((t (!b)).heap (socks (!b))).sndNxt

variable {socks : Bool → ℕ} {t : Bool → Stack} {e : Bool → End} {b : Bool}

theorem Joined.inv (h : Joined socks t) : Pair.Inv socks t fun b => .begin (t b) := by
  refine ⟨fun b => outgoing_begin (h.listed b) (h.established b), fun b => ⟨0, ?_⟩⟩
  have havail : ((t b).heap (socks b)).avail = 0 := by
    rw [Socket.avail, h.empty b, UInt32.sub_self]
    rfl
  refine ⟨?_, Nat.zero_le _, ?_, fun _ => ?_⟩
  · exact havail.le.trans (Nat.zero_le _)
  · change [] ++ ((t b).heap (socks b)).queue = _
    rw [Socket.queue, havail]
    rfl
  · exact (h.agree b).trans (UInt32.add_zero _).symm

/-- **One end makes a step**, the other stays. -/
theorem Pair.Inv.update (h : Pair.Inv socks t e) (hlasts : (e b).Lasts (socks b) c)
    (hlen : (e (!b)).written.length < 2 ^ 31)
    (hrx : ∀ tcp payload len, c.op = .rx tcp payload len →
      (e b).stack.lookup tcp.dstPort tcp.srcPort = some (socks b) →
        ∃ off, SliceAt (e (!b)).written ((t (!b)).heap (socks (!b))).sndNxt off tcp payload len) :
    Pair.Inv socks t (Function.update e b ((e b).step (socks b) c)) := by
  have hother : Function.update e b ((e b).step (socks b) c) (!b) = e (!b) :=
    Function.update_of_ne (Bool.not_ne_self b) ..
  refine ⟨?_, fun d => ?_⟩
  · exact (Function.forall_update_iff e fun d e' => e'.Outgoing (socks d) _ _ _).2
      ⟨(h.outgoing b).step hlasts, fun d _ => h.outgoing d⟩
  · rcases Bool.eq_or_eq_not d b with rfl | rfl
    · rw [hother, Function.update_self]
      exact (h.incoming d).step (h.outgoing d) hlasts hlen hrx
    · -- what the other reads goes on
      rw [hother, Bool.not_not, Function.update_self]
      obtain ⟨n, hn⟩ := h.incoming (!b)
      rw [Bool.not_not] at hn
      exact ⟨n, hn.append _⟩

/-- **Every step keeps the invariant**, as long as the streams are short. -/
theorem Pair.Inv.step {a : Act} (h : Pair.Inv socks t e) (hok : a.Ok socks e)
    (hlen : ∀ b, (e b).written.length < 2 ^ 31) : Pair.Inv socks t (Pair.step socks e a) := by
  cases a with
  | call b c =>
    obtain ⟨hlasts, helse⟩ := hok
    refine h.update hlasts (hlen _) fun tcp payload len hop hfound => ?_
    rw [Call.Elsewhere, hop] at helse
    exact absurd hfound helse
  | deliver b k mem =>
    rw [Pair.step]
    cases hk : (e (!b)).log[k]? with
    | none => exact h
    | some p =>
      refine h.update (hok p (Option.mem_def.2 hk)) (hlen _) fun tcp payload len hop _ => ?_
      obtain ⟨rfl, rfl, rfl⟩ := Op.rx.inj hop
      exact ((h.outgoing (!b)).placed p (List.mem_of_getElem? hk)).sliceAt

/-- What was written stays written. -/
theorem written_grows (socks : Bool → ℕ) (e : Bool → End) (a : Act) (b : Bool) :
    (e b).written <+: (Pair.step socks e a b).written := by
  have hupdate : ∀ d c, (e b).written <+:
      (Function.update e d ((e d).step (socks d) c) b).written := by
    intro d c
    by_cases hb : b = d
    · subst hb
      rw [Function.update_self]
      exact List.prefix_append ..
    · rw [Function.update_of_ne hb]
  cases a with
  | call d c => exact hupdate d c
  | deliver d k mem =>
    rw [Pair.step]
    cases hk : (e (!d)).log[k]? with
    | none => exact List.prefix_rfl
    | some p => exact hupdate d _

end Tcp

end Kos
