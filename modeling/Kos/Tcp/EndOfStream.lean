import Kos.Tcp.Stream
/-!
# Tcp — the end of the stream

A FIN stands at the end of the peer's stream, and counts as the byte
after it. `tcp_rx` looks at the FIN of a segment after its data and
whatever became of them: if they came too early, or the buffer cut them,
the connection is closed all the same and the rest of the stream is
lost. The stream is complete when it is closed exactly if every FIN
arrives in its turn.
-/

namespace Kos

namespace Tcp

variable {stream returned : List UInt8} {isn : UInt32} {dport sport : UInt16} {sock n : ℕ}
  {tcp : TcpHeader} {payload : ℕ → UInt8} {len : UInt16} {mem : List Block} {c : Reader}

/-- What happens to a connection: a segment arrives, from an offset of
the peer's stream, or the application reads. -/
inductive Delivery
  | rx (off : ℕ) (tcp : TcpHeader) (payload : ℕ → UInt8) (len : UInt16) (mem : List Block)
  | recv (len : UInt16)

/-- The event without the offset, which no one but the peer knows. -/
def Delivery.event : Delivery → Event
  | .rx _ tcp payload len mem => .rx tcp payload len mem
  | .recv len => .recv len

/-- One delivery to the socket `sock`. -/
def Reader.deliver (sock : ℕ) (c : Reader) (d : Delivery) : Reader := c.step sock d.event

/-- **A segment of the peer**: its data stand where its sequence number
says, and a FIN is at the end of the stream. -/
def Genuine (stream : List UInt8) (isn : UInt32) (dport sport : UInt16) : Delivery → Prop
  | .rx off tcp payload len _ =>
    tcp.dstPort = dport ∧ tcp.srcPort = sport ∧ SliceAt stream isn off tcp payload len ∧
      (hasFlag tcp.flags tcpFin = true → off + len.toNat = stream.length)
  | .recv _ => True

/-- The bytes of the stream stored so far. -/
def Reader.stored (sock : ℕ) (c : Reader) : ℕ :=
  c.returned.length + (c.stack.heap sock).avail

/-- **Data are taken where they belong**: a segment that has the sequence
number asked for also has the offset. The two differ only if a segment
is `2 ^ 32` bytes old. -/
def InPlace (sock : ℕ) (c : Reader) : Delivery → Prop
  | .rx off tcp _ len _ =>
    (c.stack.heap sock).state = .established → 0 < len →
      tcp.seq = (c.stack.heap sock).rcvNxt → off = c.stored sock
  | .recv _ => True

/-- **A FIN arrives in its turn**: its data are next and there is room
for them, or everything up to it has been stored. -/
def FinInTurn (sock : ℕ) (c : Reader) : Delivery → Prop
  | .rx off tcp _ len _ =>
    (c.stack.heap sock).state = .established → hasFlag tcp.flags tcpFin = true →
      (off = c.stored sock ∧ len.toUInt32 ≤ (c.stack.heap sock).space) ∨
        off + len.toNat = c.stored sock
  | .recv _ => True

/-- **A connection that is over has the whole stream**, and `rcv_nxt`
counts the FIN. -/
def Complete (stream : List UInt8) (isn : UInt32) (sock : ℕ) (c : Reader) : Prop :=
  (c.stack.heap sock).state ≠ .established →
    c.returned ++ (c.stack.heap sock).queue = stream ∧
      (c.stack.heap sock).rcvNxt = isn + UInt32.ofNat stream.length + 1

/-! ## One delivery -/

theorem Socket.Follows.stored {s : Socket} (h : s.Follows stream isn returned n) :
    n = returned.length + s.avail := by
  have hlen := congrArg List.length h.bytes
  rw [List.length_append, length_queue, List.length_take, Nat.min_eq_left h.bound] at hlen
  exact hlen.symm

theorem le_space_iff {s : Socket} (h : s.avail ≤ 65536) :
    len.toUInt32 ≤ s.space ↔ len.toNat ≤ 65536 - s.avail := by
  rw [UInt32.le_iff_toNat_le, UInt16.toNat_toUInt32, toNat_space h]

/-- **The whole stream has been taken** with a FIN exactly if that
arrives in its turn. -/
theorem taken_eq_iff {s : Socket} {off : ℕ} (h : s.Follows stream isn returned n)
    (hstate : s.state = .established) (hslice : SliceAt stream isn off tcp payload len)
    (hplace : 0 < len → tcp.seq = s.rcvNxt → off = n) (hend : off + len.toNat = stream.length) :
    n + s.taken tcp len = stream.length ↔
      (off = n ∧ len.toUInt32 ≤ s.space) ∨ off + len.toNat = n := by
  have hpos : 0 < len ↔ 0 < len.toNat := UInt16.lt_iff_toNat_lt
  rw [le_space_iff h.avail, Socket.taken]
  split
  · rename_i hin
    have hoff := hplace hin.1 hin.2
    have hlen := hpos.mp hin.1
    omega
  · rename_i hout
    by_cases hlen : 0 < len
    · have hne : off ≠ n := by
        rintro rfl
        refine hout ⟨hlen, ?_⟩
        rw [hslice.2.1, h.next hstate]
      omega
    · rw [hpos] at hlen
      omega

/-- **After the end** a segment changes nothing of the stream. -/
theorem receive_over {s : Socket} (hs : s.state = .closeWait ∨ s.state = .closed) (tcp : TcpHeader)
    (payload : ℕ → UInt8) (len : UInt16) :
    (s.receive tcp payload len).queue = s.queue ∧
      (s.receive tcp payload len).rcvNxt = s.rcvNxt ∧
      (s.receive tcp payload len).state ≠ .established := by
  rcases hs with hs | hs
  · simp only [Socket.receive, hs]
    split
    · exact ⟨rfl, rfl, TcpState.noConfusion⟩
    · exact ⟨rfl, rfl, by rw [hs]; exact TcpState.noConfusion⟩
  · have hself : s.receive tcp payload len = s := by simp [Socket.receive, hs]
    rw [hself]
    exact ⟨rfl, rfl, by rw [hs]; exact TcpState.noConfusion⟩

/-- What a socket knows of the stream is all of it. -/
theorem Socket.Follows.complete_iff {s : Socket} (h : s.Follows stream isn returned n)
    (hstate : s.state = .established) :
    returned ++ s.queue = stream ∧ s.rcvNxt + 1 = isn + UInt32.ofNat stream.length + 1 ↔
      n = stream.length := by
  rw [h.bytes, h.next hstate]
  constructor
  · rintro ⟨htake, -⟩
    have hlen := congrArg List.length htake
    rw [List.length_take, Nat.min_eq_left h.bound] at hlen
    exact hlen
  · rintro rfl
    exact ⟨List.take_length, rfl⟩

/-- **One delivery**: the stream stays complete, or becomes so, exactly
if a FIN arrives in its turn. -/
theorem complete_deliver {d : Delivery} (h : c.Inv stream isn dport sport sock)
    (hgen : Genuine stream isn dport sport d) (hplace : InPlace sock c d)
    (hc : Complete stream isn sock c) :
    Complete stream isn sock (c.deliver sock d) ↔ FinInTurn sock c d := by
  cases d with
  | recv len =>
    obtain ⟨hbytes, -, hstate, hnext⟩ := tcpRecv_self c.stack sock len
    refine iff_of_true (fun hne => ?_) trivial
    change c.returned ++ (tcpRecv c.stack sock len).1.getD [] ++
      ((tcpRecv c.stack sock len).2.heap sock).queue = stream ∧
      ((tcpRecv c.stack sock len).2.heap sock).rcvNxt = _
    rw [List.append_assoc, hbytes, hnext]
    exact hc (hstate ▸ hne)
  | rx off tcp payload len mem =>
    obtain ⟨hdport, hsport, hslice, hend⟩ := hgen
    obtain ⟨hheap, -⟩ := h.rx_self hdport hsport payload len mem
    have hself : (c.deliver sock (.rx off tcp payload len mem)).stack.heap sock =
        (c.stack.heap sock).receive tcp payload len := by
      change (c.step sock (.rx tcp payload len mem)).stack.heap sock = _
      rw [hheap, Function.update_self]
    have hreturned : (c.deliver sock (.rx off tcp payload len mem)).returned = c.returned := rfl
    obtain ⟨n, hn⟩ := h.follows
    have hstored : n = c.stored sock := hn.stored
    simp only [Complete, FinInTurn, hself, hreturned]
    by_cases hest : (c.stack.heap sock).state = .established
    · have hplace' : 0 < len → tcp.seq = (c.stack.heap sock).rcvNxt → off = n := by
        rw [hstored]
        exact hplace hest
      obtain ⟨s₁, hreceive, hstate₁, hfollows⟩ := hn.established hest hslice hplace'
      rw [hreceive, Socket.takeFin]
      split
      · rename_i hfin
        have hover : TcpState.closeWait ≠ .established := TcpState.noConfusion
        simp only [hest, hfin, hover, ne_eq, not_false_eq_true, forall_const]
        rw [← hstored, ← taken_eq_iff hn hest hslice hplace' (hend hfin)]
        exact hfollows.complete_iff hstate₁
      · rename_i hfin
        exact iff_of_true (fun hne => absurd hstate₁ hne) fun _ hc => absurd hc hfin
    · -- the end was before, and stays
      have hover : (c.stack.heap sock).state = .closeWait ∨ (c.stack.heap sock).state = .closed :=
        h.state.resolve_left hest
      obtain ⟨hqueue, hnext, -⟩ := receive_over hover tcp payload len
      rw [hqueue, hnext]
      exact iff_of_true (fun _ => hc hest) fun hc => absurd hc hest

/-! ## Every run -/

/-- **A delivery keeps the invariant of the connection**, where data are
taken where they belong. -/
theorem Reader.Inv.deliver {d : Delivery} (h : c.Inv stream isn dport sport sock)
    (hgen : Genuine stream isn dport sport d) (hplace : InPlace sock c d) :
    (c.deliver sock d).Inv stream isn dport sport sock := by
  cases d with
  | recv len => exact h.recv len
  | rx off tcp payload len mem =>
    obtain ⟨hdport, hsport, hslice, -⟩ := hgen
    refine h.rx hdport hsport hslice fun n hn hs hpos hseq => ?_
    rw [hn.stored]
    exact hplace hs hpos hseq

/-- **When a closed connection has the whole stream.** For every order,
duplication and loss of the peer's segments and every reading between
them: if each FIN arrives in its turn; and only then, as long as data
are taken where they belong. -/
theorem complete_iff_finInTurn {t : Stack} (hfound : t.lookup dport sport = some sock)
    (hstate : (t.heap sock).state = .established)
    (hstart : (t.heap sock).Follows stream isn [] n) {ds : List Delivery}
    (h : ∀ d ∈ ds, Genuine stream isn dport sport d) :
    let run (k : ℕ) : Reader := runFrom (Reader.deliver sock) ⟨t, []⟩ (ds.take k)
    (Allowed (Reader.deliver sock) (fun c d => InPlace sock c d ∧ FinInTurn sock c d) ⟨t, []⟩ ds →
        ∀ k, Complete stream isn sock (run k)) ∧
      (Allowed (Reader.deliver sock) (InPlace sock) ⟨t, []⟩ ds →
        (∀ k, Complete stream isn sock (run k)) →
        Allowed (Reader.deliver sock) (FinInTurn sock) ⟨t, []⟩ ds) := by
  intro run
  have hports : (t.heap sock).localPort = dport ∧ (t.heap sock).remotePort = sport := by
    have := List.find?_some hfound
    simpa [Socket.accepts, hstate] using this
  have hinv : Reader.Inv stream isn dport sport sock ⟨t, []⟩ :=
    ⟨hfound, hports, Or.inl hstate, n, hstart⟩
  have hgen := allowed_of_forall (Reader.deliver sock) ⟨t, []⟩ h
  have hiff : Allowed (Reader.deliver sock) (InPlace sock) ⟨t, []⟩ ds →
      (Allowed (Reader.deliver sock) (FinInTurn sock) ⟨t, []⟩ ds ↔
        ∀ k, Complete stream isn sock (run k)) := by
    intro hplace
    have hok := hgen.and hplace
    exact hok.iff_forall_take (I := Reader.Inv stream isn dport sport sock)
      (P := Complete stream isn sock) (fun _ _ hc hd => hc.deliver hd.1 hd.2)
      (fun _ _ hc hd hdone => complete_deliver hc hd.1 hd.2 hdone) hinv fun hne => absurd hstate hne
  constructor
  · intro hall
    exact (hiff (hall.mono fun _ _ => And.left)).1 (hall.mono fun _ _ => And.right)
  · intro hplace
    exact (hiff hplace).2

/-- A stream of three bytes whose last one comes early, and then again in
its turn and with the FIN. -/
theorem complete_three_bytes :
    let stream : List UInt8 := [1, 2, 3]
    let s : Socket :=
      { Socket.zero with state := .established, localPort := 80, remotePort := 5000, rcvNxt := 7 }
    let t : Stack := { tcpInit (fun _ => s) none with sockets := [1] }
    let rx (off : ℕ) (len : UInt16) (flags : UInt8) : Delivery :=
      .rx off ⟨5000, 80, 7 + UInt32.ofNat off, 0, 5, flags, 0, 0, 0⟩
        (fun i => stream.getD (off + i) 0) len []
    let ds : List Delivery :=
      [rx 2 1 tcpAck, rx 0 2 tcpAck, .recv 1, rx 2 1 (tcpFin ||| tcpAck)]
    (∀ k, Complete stream 7 1 (runFrom (Reader.deliver 1) ⟨t, []⟩ (ds.take k))) ∧
      ((runFrom (Reader.deliver 1) ⟨t, []⟩ ds).stack.heap 1).state = .closeWait := by
  refine ⟨?_, by decide +kernel⟩
  refine (complete_iff_finInTurn (show Stack.lookup _ 80 5000 = some 1 from rfl) rfl
    (show Socket.Follows _ 7 [] 0 _ from ⟨by decide, by decide, rfl, fun _ => rfl⟩) ?_).1 ?_
  · intro d hd
    simp only [List.mem_cons, List.not_mem_nil, or_false] at hd
    rcases hd with rfl | rfl | rfl | rfl
    · exact ⟨rfl, rfl, ⟨by decide, rfl, by decide⟩, fun hc => absurd hc (by decide)⟩
    · exact ⟨rfl, rfl, ⟨by decide, rfl, by decide⟩, fun hc => absurd hc (by decide)⟩
    · trivial
    · exact ⟨rfl, rfl, ⟨by decide, rfl, by decide⟩, fun _ => rfl⟩
  · refine ⟨⟨fun _ _ hc => absurd hc (by decide), fun _ hc => absurd hc (by decide)⟩,
      ⟨fun _ _ _ => rfl, fun _ hc => absurd hc (by decide)⟩, ⟨trivial, trivial⟩,
      ⟨fun _ _ _ => by decide +kernel, fun _ _ => Or.inl (by decide +kernel)⟩, trivial⟩

/-- The same stream, but the segment with its end comes first: the
connection is over, and has nothing of it. -/
theorem early_fin_loses_stream :
    let stream : List UInt8 := [1, 2, 3]
    let s : Socket :=
      { Socket.zero with state := .established, localPort := 80, remotePort := 5000, rcvNxt := 7 }
    let t : Stack := { tcpInit (fun _ => s) none with sockets := [1] }
    let d : Delivery :=
      .rx 2 ⟨5000, 80, 9, 0, 5, tcpFin ||| tcpAck, 0, 0, 0⟩ (fun i => stream.getD (2 + i) 0) 1 []
    let c := Reader.deliver 1 ⟨t, []⟩ d
    Genuine stream 7 80 5000 d ∧ ¬ Complete stream 7 1 c ∧
      (c.stack.heap 1).state = .closeWait ∧ (c.stack.heap 1).rcvNxt = 8 ∧
      c.returned ++ (c.stack.heap 1).queue = [] := by
  refine ⟨⟨rfl, rfl, ⟨by decide, rfl, by decide⟩, fun _ => rfl⟩, fun hc => ?_, by decide +kernel⟩
  exact absurd (hc (by decide +kernel)).1 (by decide +kernel)

end Tcp

end Kos
