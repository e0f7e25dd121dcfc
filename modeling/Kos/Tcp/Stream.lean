import Kos.Common.Run
import Kos.Tcp.Effects
/-!
# Tcp — the receive stream

What `tcp_recv` returned and what is queued is always a prefix of the
peer's stream: a segment is stored only where `rcv_nxt` says the stream
goes on, and with a stream shorter than `2 ^ 31` that place is
unambiguous. A full buffer cuts a segment, and `rcv_nxt` moves by what
was stored; a FIN ends the taking of data, wherever it stood.
-/

namespace Kos

namespace Tcp

variable {s : Socket} {payload : ℕ → UInt8} {len : UInt16}

/-! ## One connection -/

/-- What happens to a connection: a segment arrives, with the answers of
the allocator to its acknowledgements, or the application reads. -/
inductive Event
  | rx (tcp : TcpHeader) (payload : ℕ → UInt8) (len : UInt16) (mem : List Block)
  | recv (len : UInt16)

/-- The stack, and the bytes `tcp_recv` returned so far. -/
structure Reader where
  stack : Stack
  returned : List UInt8

/-- One event on the socket `sock`. -/
def Reader.step (sock : ℕ) (c : Reader) : Event → Reader
  | .rx tcp payload len mem => { c with stack := tcpRx (c.stack.given mem) tcp payload len }
  | .recv len =>
    ⟨(tcpRecv c.stack sock len).2, c.returned ++ (tcpRecv c.stack sock len).1.getD []⟩

/-- **A slice of the stream**: a segment of this connection whose data
stand where its sequence number says. -/
def IsSlice (stream : List UInt8) (isn : UInt32) (dport sport : UInt16) : Event → Prop
  | .rx tcp payload len _ =>
    tcp.dstPort = dport ∧ tcp.srcPort = sport ∧ ∃ off, off + len.toNat ≤ stream.length ∧
      tcp.seq = isn + UInt32.ofNat off ∧ ∀ i < len.toNat, stream[off + i]? = some (payload i)
  | .recv _ => True

/-- **What a socket knows of the stream**: what was returned and what is
queued are its first `n` bytes, and `rcv_nxt` asks for the next as long
as data is taken. -/
structure Socket.Follows (stream : List UInt8) (isn : UInt32) (returned : List UInt8) (n : ℕ)
    (s : Socket) : Prop where
  avail : s.avail ≤ 65536
  bound : n ≤ stream.length
  bytes : returned ++ s.queue = stream.take n
  next : s.state = .established → s.rcvNxt = isn + UInt32.ofNat n

variable {stream returned : List UInt8} {isn : UInt32} {dport sport : UInt16} {sock n : ℕ}
  {tcp : TcpHeader} {mem : List Block}

/-- The bytes of a slice. -/
theorem map_range_eq_take {off m : ℕ} (h : ∀ i < m, stream[off + i]? = some (payload i)) :
    (List.range m).map payload = (stream.drop off).take m := by
  refine List.ext_getElem? fun i => ?_
  rcases Nat.lt_or_ge i m with hi | hi
  · rw [List.getElem?_map, List.getElem?_range hi, List.getElem?_take_of_lt hi, List.getElem?_drop,
      h i hi]
    rfl
  · rw [List.getElem?_eq_none (by simpa using hi),
      List.getElem?_eq_none (by rw [List.length_take]; omega)]

/-- **The place of a slice is unambiguous**: sequence numbers of a stream
shorter than `2 ^ 31` do not meet. -/
theorem offset_eq (isn : UInt32) {off : ℕ} (hlen : stream.length < 2 ^ 31) (hoff : off ≤ stream.length)
    (hn : n ≤ stream.length) (h : isn + UInt32.ofNat off = isn + UInt32.ofNat n) : off = n := by
  have hnum := congrArg UInt32.toNat h
  have hisn := isn.toNat_lt
  rw [UInt32.toNat_add, UInt32.toNat_add, UInt32.toNat_ofNat', UInt32.toNat_ofNat'] at hnum
  omega

/-- A segment whose data stand at an offset of the stream. -/
def SliceAt (stream : List UInt8) (isn : UInt32) (off : ℕ) (tcp : TcpHeader) (payload : ℕ → UInt8)
    (len : UInt16) : Prop :=
  off + len.toNat ≤ stream.length ∧ tcp.seq = isn + UInt32.ofNat off ∧
    ∀ i < len.toNat, stream[off + i]? = some (payload i)

/-- The number of bytes a socket stores of a segment. -/
def Socket.taken (s : Socket) (tcp : TcpHeader) (len : UInt16) : ℕ :=
  if 0 < len ∧ tcp.seq = s.rcvNxt then min len.toNat (65536 - s.avail) else 0

/-- **Data in order extends the prefix**, data out of order is dropped.
What is taken as being in order is so. -/
theorem Socket.Follows.takeData {off : ℕ} (h : s.Follows stream isn returned n)
    (hstate : s.state = .established) (hslice : SliceAt stream isn off tcp payload len)
    (hplace : 0 < len → tcp.seq = s.rcvNxt → off = n) :
    (s.takeData tcp payload len).Follows stream isn returned (n + s.taken tcp len) := by
  unfold Socket.takeData
  split
  · rename_i hpos
    split
    · rename_i hseq
      obtain ⟨hoff, hsliceSeq, hbytes⟩ := hslice
      obtain ⟨havail, hbound, hpre, hnext⟩ := h
      obtain rfl : off = n := hplace hpos hseq
      obtain ⟨havail', hqueue⟩ := store_queue payload len havail
      have hm : (clamp len s.space).toNat = min len.toNat (65536 - s.avail) := by
        rw [toNat_clamp, toNat_space havail]
      rw [Socket.taken, if_pos ⟨hpos, hseq⟩]
      refine ⟨by omega, by omega, ?_, fun _ => ?_⟩
      · rw [hqueue, ← List.append_assoc, hpre, List.take_add,
          map_range_eq_take fun i hi => hbytes i (by omega)]
      · have hadd : (clamp len s.space).toUInt32 = UInt32.ofNat (min len.toNat (65536 - s.avail)) := by
          rw [← hm, UInt32.ofNat_uInt16ToNat]
        rw [store_rcvNxt, hadd, hnext hstate, UInt32.ofNat_add, UInt32.add_assoc]
    · rename_i hseq
      rw [Socket.taken, if_neg fun hc => hseq hc.2]
      exact h
  · rename_i hpos
    rw [Socket.taken, if_neg fun hc => hpos hc.1]
    exact h

/-- Outside of the established state the data of a socket stays. -/
theorem Socket.Follows.of_eq {s' : Socket} (h : s.Follows stream isn returned n)
    (hbuf : s'.rxBuf = s.rxBuf) (hhead : s'.rxHead = s.rxHead) (htail : s'.rxTail = s.rxTail)
    (hnext : s'.state = .established → s'.rcvNxt = isn + UInt32.ofNat n) :
    s'.Follows stream isn returned n := by
  have havail : s'.avail = s.avail := by
    rw [Socket.avail, Socket.avail, hhead, htail]
  have hqueue : s'.queue = s.queue := by
    rw [Socket.queue, Socket.queue, havail, hbuf, hhead]
  refine ⟨?_, h.bound, ?_, hnext⟩
  · rw [havail]
    exact h.avail
  · rw [hqueue]
    exact h.bytes

/-- Reading moves bytes from the queue to those returned. -/
theorem Socket.Follows.fetched (h : s.Follows stream isn returned n) (len : UInt16) :
    (s.fetched len).Follows stream isn (returned ++ (s.fetch len).1) n := by
  obtain ⟨havail, hqueue⟩ := fetch_queue s len
  refine ⟨?_, h.bound, ?_, h.next⟩
  · have := h.avail
    omega
  · rw [List.append_assoc, ← hqueue]
    exact h.bytes

/-- **On an established connection** the data of a segment are taken
before its end is looked at. -/
theorem Socket.Follows.established {off : ℕ} (h : s.Follows stream isn returned n)
    (hstate : s.state = .established) (hslice : SliceAt stream isn off tcp payload len)
    (hplace : 0 < len → tcp.seq = s.rcvNxt → off = n) :
    ∃ s₁ : Socket, s.receive tcp payload len = s₁.takeFin tcp ∧ s₁.state = .established ∧
      s₁.Follows stream isn returned (n + s.taken tcp len) := by
  have hack : (s.takeAck tcp).Follows stream isn returned n ∧ (s.takeAck tcp).rcvNxt = s.rcvNxt ∧
      (s.takeAck tcp).taken tcp len = s.taken tcp len := by
    unfold Socket.takeAck
    split
    · exact ⟨h.of_eq rfl rfl rfl h.next, rfl, rfl⟩
    · exact ⟨h, rfl, rfl⟩
  have hackState : (s.takeAck tcp).state = .established := by
    rw [(s.take_ports tcp payload len).1.2.2, hstate]
  refine ⟨(s.takeAck tcp).takeData tcp payload len, by rw [Socket.receive, hstate], ?_, ?_⟩
  · rw [((s.takeAck tcp).take_ports tcp payload len).2.1.2.2, hackState]
  · rw [← hack.2.2]
    exact hack.1.takeData hackState hslice (by rw [hack.2.1]; exact hplace)

/-- **A segment of the connection extends the prefix or leaves it.** -/
theorem Socket.Follows.receive {off : ℕ} (h : s.Follows stream isn returned n)
    (hstate : s.state = .established ∨ s.state = .closeWait ∨ s.state = .closed)
    (hslice : SliceAt stream isn off tcp payload len)
    (hplace : s.state = .established → 0 < len → tcp.seq = s.rcvNxt → off = n) :
    (∃ n', (s.receive tcp payload len).Follows stream isn returned n') ∧
      ((s.receive tcp payload len).state = .established ∨
        (s.receive tcp payload len).state = .closeWait ∨
        (s.receive tcp payload len).state = .closed) := by
  rcases hstate with hs | hs | hs
  · obtain ⟨s₁, hreceive, hstate₁, hdata⟩ := h.established hs hslice (hplace hs)
    rw [hreceive, Socket.takeFin]
    split
    · -- the stream is over, wherever its end stood
      refine ⟨⟨_, hdata.of_eq rfl rfl rfl fun hc => ?_⟩, Or.inr (Or.inl rfl)⟩
      exact TcpState.noConfusion hc
    · exact ⟨⟨_, hdata⟩, Or.inl hstate₁⟩
  · simp only [Socket.receive, hs]
    split
    · refine ⟨⟨n, h.of_eq rfl rfl rfl fun hc => ?_⟩, Or.inr (Or.inr rfl)⟩
      exact TcpState.noConfusion hc
    · exact ⟨⟨n, h⟩, Or.inr (Or.inl hs)⟩
  · have hself : s.receive tcp payload len = s := by simp [Socket.receive, hs]
    rw [hself]
    exact ⟨⟨n, h⟩, Or.inr (Or.inr hs)⟩

/-- A socket found by its ports is found again after it changed. -/
theorem lookup_update {t t' : Stack} {s' : Socket} (h : t.lookup dport sport = some sock)
    (hsockets : t'.sockets = t.sockets) (hheap : t'.heap = Function.update t.heap sock s')
    (hlocal : s'.localPort = dport) (hremote : s'.remotePort = sport) :
    t'.lookup dport sport = some sock := by
  obtain ⟨hsock, before, after, hlist, hbefore⟩ := List.find?_eq_some_iff_append.mp h
  refine List.find?_eq_some_iff_append.mpr ⟨?_, before, after, hsockets.trans hlist, fun x hx => ?_⟩
  · rw [hheap, Function.update_self]
    simp [Socket.accepts, hlocal, hremote]
  · have hne : x ≠ sock := by
      rintro rfl
      have hx := hbefore x hx
      rw [hsock] at hx
      exact absurd hx (by decide)
    rw [hheap, Function.update_of_ne hne]
    exact hbefore x hx

/-- **The invariant of a connection.** -/
structure Reader.Inv (stream : List UInt8) (isn : UInt32) (dport sport : UInt16) (sock : ℕ)
    (c : Reader) : Prop where
  found : c.stack.lookup dport sport = some sock
  ports : (c.stack.heap sock).localPort = dport ∧ (c.stack.heap sock).remotePort = sport
  state : (c.stack.heap sock).state = .established ∨ (c.stack.heap sock).state = .closeWait ∨
    (c.stack.heap sock).state = .closed
  follows : ∃ n, (c.stack.heap sock).Follows stream isn c.returned n

/-- A segment of the connection is taken by its socket. -/
theorem Reader.Inv.rx_self {c : Reader} (h : c.Inv stream isn dport sport sock)
    (hdport : tcp.dstPort = dport) (hsport : tcp.srcPort = sport) (payload : ℕ → UInt8) (len : UInt16)
    (mem : List Block) :
    (c.step sock (.rx tcp payload len mem)).stack.heap =
        Function.update c.stack.heap sock ((c.stack.heap sock).receive tcp payload len) ∧
      (c.step sock (.rx tcp payload len mem)).stack.sockets = c.stack.sockets := by
  have hlisten : (c.stack.heap sock).state ≠ .listen := by
    rcases h.state with hs | hs | hs <;> rw [hs] <;> exact TcpState.noConfusion
  have hfound : (c.stack.given mem).lookup tcp.dstPort tcp.srcPort = some sock := by
    rw [hdport, hsport]
    exact h.found
  exact ⟨tcpRx_heap payload len hfound hlisten, tcpRx_sockets payload len hfound hlisten⟩

/-- **A segment keeps the invariant.** -/
theorem Reader.Inv.rx {c : Reader} {off : ℕ} (h : c.Inv stream isn dport sport sock)
    (hdport : tcp.dstPort = dport) (hsport : tcp.srcPort = sport)
    (hslice : SliceAt stream isn off tcp payload len)
    (hplace : ∀ n, (c.stack.heap sock).Follows stream isn c.returned n →
      (c.stack.heap sock).state = .established → 0 < len → tcp.seq = (c.stack.heap sock).rcvNxt →
      off = n) :
    (c.step sock (.rx tcp payload len mem)).Inv stream isn dport sport sock := by
  obtain ⟨hheap, hsockets⟩ := h.rx_self hdport hsport payload len mem
  obtain ⟨hfound, ⟨hlocal, hremote⟩, hstate, n, hfollows⟩ := h
  obtain ⟨hl, hr⟩ := (c.stack.heap sock).receive_ports tcp payload len
  obtain ⟨hnew, hnewState⟩ := hfollows.receive hstate hslice (hplace n hfollows)
  have hself : (c.step sock (.rx tcp payload len mem)).stack.heap sock =
      (c.stack.heap sock).receive tcp payload len := by
    rw [hheap, Function.update_self]
  refine ⟨lookup_update hfound hsockets hheap (hl.trans hlocal) (hr.trans hremote), ?_, ?_, ?_⟩
  · rw [hself]
    exact ⟨hl.trans hlocal, hr.trans hremote⟩
  · rw [hself]
    exact hnewState
  · rw [hself]
    exact hnew

/-- **Reading keeps the invariant**: what leaves the queue is returned. -/
theorem Reader.Inv.recv {c : Reader} (h : c.Inv stream isn dport sport sock) (len : UInt16) :
    (c.step sock (.recv len)).Inv stream isn dport sport sock := by
  obtain ⟨hfound, hports, hstate, n, hfollows⟩ := h
  have hsame : ∀ r, r = none ∨ r = some [] →
      Reader.Inv stream isn dport sport sock ⟨c.stack, c.returned ++ r.getD []⟩ := by
    intro r hr
    have hnil : c.returned ++ r.getD [] = c.returned := by
      rcases hr with rfl | rfl <;> exact List.append_nil _
    rw [hnil]
    exact ⟨hfound, hports, hstate, n, hfollows⟩
  simp only [Reader.step, tcpRecv]
  split
  · exact hsame none (Or.inl rfl)
  · split
    · exact hsame none (Or.inl rfl)
    · split
      · exact hsame (some []) (Or.inr rfl)
      · have hself : (c.stack.modify sock fun s =>
            { s with rxHead := s.rxHead + ((c.stack.heap sock).fetch len).2.toUInt32 }).heap =
            Function.update c.stack.heap sock ((c.stack.heap sock).fetched len) := rfl
        refine ⟨lookup_update hfound rfl hself hports.1 hports.2, ?_, ?_, n, ?_⟩
        all_goals simp only [hself, Function.update_self]
        · exact hports
        · exact hstate
        · exact hfollows.fetched len

/-- **The bytes of a connection are a prefix of the stream.** Whatever
slices arrive, in whatever order, with whatever flags, and however the
application reads: what it was given and what waits for it are the
stream from its start. -/
theorem stream_in_order (hlen : stream.length < 2 ^ 31) {t : Stack}
    (hfound : t.lookup dport sport = some sock) (hstate : (t.heap sock).state = .established)
    (hempty : (t.heap sock).rxHead = (t.heap sock).rxTail) {events : List Event}
    (h : Allowed (Reader.step sock) (fun _ => IsSlice stream (t.heap sock).rcvNxt dport sport)
      ⟨t, []⟩ events) :
    (runFrom (Reader.step sock) ⟨t, []⟩ events).returned ++
      ((runFrom (Reader.step sock) ⟨t, []⟩ events).stack.heap sock).queue <+: stream := by
  have hports : (t.heap sock).localPort = dport ∧ (t.heap sock).remotePort = sport := by
    have := List.find?_some hfound
    simpa [Socket.accepts, hstate] using this
  have havail : (t.heap sock).avail = 0 := by
    rw [Socket.avail, hempty, UInt32.sub_self]
    rfl
  have hstart : (t.heap sock).Follows stream (t.heap sock).rcvNxt [] 0 := by
    refine ⟨by omega, Nat.zero_le _, ?_, fun _ => ?_⟩
    · rw [Socket.queue, havail]
      rfl
    · exact (UInt32.add_zero _).symm
  have hinv := h.invariant (P := Reader.Inv stream (t.heap sock).rcvNxt dport sport sock)
    (fun c e hc he => by
      cases e with
      | rx tcp payload len mem =>
        obtain ⟨hdport, hsport, off, hslice⟩ := he
        refine hc.rx hdport hsport hslice fun n hn hs _ hseq => ?_
        refine offset_eq (t.heap sock).rcvNxt hlen ((Nat.le_add_right ..).trans hslice.1) hn.bound ?_
        rw [← hslice.2.1, hseq, hn.next hs]
      | recv len => exact hc.recv len)
    ⟨hfound, hports, Or.inl hstate, 0, hstart⟩
  obtain ⟨n, hn⟩ := hinv.follows
  rw [hn.bytes]
  exact List.take_prefix n stream

/-- Three bytes in three segments, the second before its turn and the
third sent twice, with reads between them. -/
theorem stream_in_order_three_bytes :
    let stream : List UInt8 := [1, 2, 3]
    let s : Socket :=
      { Socket.zero with state := .established, localPort := 80, remotePort := 5000, rcvNxt := 7 }
    let t : Stack := { tcpInit (fun _ => s) none with sockets := [1] }
    let rx (off : ℕ) (len : UInt16) : Event :=
      .rx ⟨5000, 80, 7 + UInt32.ofNat off, 0, 5, tcpAck, 0, 0, 0⟩ (fun i => stream.getD (off + i) 0)
        len []
    let events : List Event := [rx 1 2, rx 0 2, .recv 1, rx 2 1, rx 2 1, .recv 5]
    let c := runFrom (Reader.step 1) ⟨t, []⟩ events
    c.returned ++ (c.stack.heap 1).queue <+: stream ∧ c.returned = [1, 2, 3] := by
  refine ⟨stream_in_order (by decide) (show Stack.lookup _ 80 5000 = some 1 from rfl) rfl rfl ?_,
    by decide +kernel⟩
  refine ⟨⟨rfl, rfl, 1, by decide, rfl, by decide⟩, ⟨rfl, rfl, 0, by decide, rfl, by decide⟩, trivial,
    ⟨rfl, rfl, 2, by decide, rfl, by decide⟩, ⟨rfl, rfl, 2, by decide, rfl, by decide⟩, trivial,
    trivial⟩

end Tcp

end Kos
