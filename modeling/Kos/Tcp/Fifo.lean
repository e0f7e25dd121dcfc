import Kos.Tcp.Unread
/-!
# Tcp — the receive buffer is a bounded queue

The counters of the receive buffer run on over `2 ^ 32`, and a block is
copied in two pieces where it runs over the end of the buffer. Seen from
outside the buffer is a queue of at most 65536 bytes: data in order are
appended as far as there is room, and `tcp_recv` takes from the front.
-/

namespace Kos

namespace Tcp

variable {s : Socket} {tcp : TcpHeader} {sock : ℕ}

/-! ## The copies -/

/-- The copies `tcp_rx` and `tcp_recv` make at a counter: where in the
buffer, and how many bytes. -/
def copiesAt (counter : UInt32) (len : UInt16) : List (ℕ × ℕ) :=
  let cell := counter % tcpRxBufSize
  if tcpRxBufSize < cell + len.toUInt32 then
    let first := tcpRxBufSize - cell
    [(cell.toNat, first.toNat), (0, (len.toUInt32 - first).toNat)]
  else [(cell.toNat, len.toNat)]

/-- The copies of `tcp_rx`. -/
def Socket.storeCopies (s : Socket) (len : UInt16) : List (ℕ × ℕ) :=
  copiesAt s.rxTail (clamp len s.space)

/-- The copies of `tcp_recv`. -/
def Socket.fetchCopies (s : Socket) (len : UInt16) : List (ℕ × ℕ) :=
  copiesAt s.rxHead (clamp len (s.rxTail - s.rxHead))

/-- Storing makes these copies, one behind the other in the payload. -/
theorem store_eq_copies (s : Socket) (payload : ℕ → UInt8) (len : UInt16) :
    (s.store payload len).rxBuf.bytes = ((s.storeCopies len).foldl (fun (buf, off) (pos, n) =>
      (Ring.copy buf pos (fun i => payload (off + i)) n, off + n)) (s.rxBuf.bytes, 0)).1 := by
  simp only [Socket.store, Socket.setRx, Socket.storeCopies, copiesAt]
  split
  · simp only [List.foldl_cons, List.foldl_nil, Nat.zero_add]
  · simp only [List.foldl_cons, List.foldl_nil, Nat.zero_add]

/-- Reading makes these copies. -/
theorem fetch_eq_copies (s : Socket) (len : UInt16) :
    (s.fetch len).1 =
      (s.fetchCopies len).flatMap fun (pos, n) => Ring.read s.rxBuf.bytes pos n := by
  simp only [Socket.fetch, Socket.fetchCopies, copiesAt]
  split
  · simp only [List.flatMap_cons, List.flatMap_nil, List.append_nil]
  · simp only [List.flatMap_cons, List.flatMap_nil, List.append_nil]

/-- **Every copy stays within the buffer.** -/
theorem copiesAt_within (counter : UInt32) (len : UInt16) :
    ∀ p ∈ copiesAt counter len, p.1 + p.2 ≤ 65536 := by
  obtain ⟨hcell, hwrap, hfirst, hrest⟩ := counter_pieces counter len
  have hpieces : copiesAt counter len = Ring.pieces 65536 counter.toNat len.toNat := by
    simp only [copiesAt, Ring.pieces, hwrap, hfirst, hcell]
    split
    · rename_i hover
      rw [hrest hover]
    · rfl
  rw [hpieces]
  exact Ring.pieces_within (by decide) (len.toNat_lt.le.trans (by decide)) counter.toNat

/-! ## One event -/

/-- **Data in order** for an established connection, or a read. -/
def InOrder (sock : ℕ) (c : Reader) : Event → Prop
  | .rx tcp _ _ _ =>
    c.stack.lookup tcp.dstPort tcp.srcPort = some sock ∧
      (c.stack.heap sock).state = .established ∧ tcp.seq = (c.stack.heap sock).rcvNxt
  | .recv _ => True

/-- A bounded queue, and the bytes taken from it so far. -/
structure FifoReader where
  fifo : Ring.Fifo UInt8 65536
  returned : List UInt8

/-- What an event does to a bounded queue. -/
def FifoReader.step (f : FifoReader) : Event → FifoReader
  | .rx _ payload len _ => { f with fifo := f.fifo.put (Ring.read payload 0 len.toNat) }
  | .recv len => ⟨(f.fifo.get len.toNat).2, f.returned ++ (f.fifo.get len.toNat).1⟩

/-- The queue of a socket, within its bound. -/
def Socket.fifo (s : Socket) (h : s.avail ≤ 65536) : Ring.Fifo UInt8 65536 :=
  ⟨s.queue, (length_queue s).le.trans h⟩

/-- **A connection is a bounded queue**: the socket holds its bytes and
can be read. -/
structure Reader.Is (sock : ℕ) (c : Reader) (f : FifoReader) : Prop where
  queue : (c.stack.heap sock).queue = f.fifo.items
  returned : c.returned = f.returned
  reads : (c.stack.heap sock).Reads

theorem Reader.Is.avail {c : Reader} {f : FifoReader} (h : c.Is sock f) :
    (c.stack.heap sock).avail ≤ 65536 := by
  rw [← length_queue, h.queue]
  exact f.fifo.bound

/-- The front of a block of memory. -/
theorem take_read (payload : ℕ → UInt8) (n m : ℕ) :
    (Ring.read payload 0 n).take m = (List.range (min n m)).map payload := by
  rw [Ring.read, ← List.map_take, List.take_range, Nat.min_comm]
  simp only [Nat.zero_add]

/-- **A segment in order** is appended as far as there is room. -/
theorem receive_inOrder (hstate : s.state = .established) (hseq : tcp.seq = s.rcvNxt)
    (h : s.avail ≤ 65536) (payload : ℕ → UInt8) (len : UInt16) :
    (s.receive tcp payload len).queue =
      s.queue ++ (List.range (min len.toNat (65536 - s.avail))).map payload := by
  have htaken : s.taken tcp len = min len.toNat (65536 - s.avail) := by
    unfold Socket.taken
    split
    · rfl
    · rename_i hno
      have hzero : len.toNat = 0 := by
        by_contra hne
        exact hno ⟨UInt16.lt_iff_toNat_lt.2 (Nat.pos_of_ne_zero hne), hseq⟩
      rw [hzero, Nat.zero_min]
  rw [(receive_queue h tcp payload len).2, if_pos hstate, htaken]

/-- **`tcp_recv` leaves the rest** of what it took the front of. -/
theorem tcpRecv_rest {t : Stack} (hsock : sock ≠ 0) (h : (t.heap sock).Reads) (len : UInt16) :
    ((tcpRecv t sock len).2.heap sock).queue = (t.heap sock).queue.drop len.toNat := by
  have hsplit := (tcpRecv_self t sock len).1
  rw [tcpRecv_open hsock h, Option.getD_some] at hsplit
  exact List.append_cancel_left (hsplit.trans (List.take_append_drop len.toNat _).symm)

/-- **One event does the same to both.** -/
theorem Reader.Is.step {c : Reader} {f : FifoReader} {e : Event} (hsock : sock ≠ 0)
    (h : c.Is sock f) (he : InOrder sock c e) : (c.step sock e).Is sock (f.step e) := by
  cases e with
  | rx tcp payload len mem =>
    obtain ⟨hfound, hest, hseq⟩ := he
    have hlisten : (c.stack.heap sock).state ≠ .listen := by
      rw [hest]
      exact TcpState.noConfusion
    have hself : (c.step sock (.rx tcp payload len mem)).stack.heap sock =
        (c.stack.heap sock).receive tcp payload len := by
      have hheap := tcpRx_heap (t := c.stack.given mem) payload len hfound hlisten
      exact (congrFun hheap sock).trans (Function.update_self ..)
    refine ⟨?_, h.returned, ?_⟩
    · have hroom : f.fifo.items.length = (c.stack.heap sock).avail := by
        rw [← h.queue, length_queue]
      rw [hself, receive_inOrder hest hseq h.avail payload len, h.queue, ← take_read, ← hroom]
      rfl
    · rw [hself, receive_reads h.reads, hest]
      exact fun hc => TcpState.noConfusion hc.1
  | recv len =>
    refine ⟨?_, ?_, ?_⟩
    · exact (tcpRecv_rest hsock h.reads len).trans (by rw [h.queue]; rfl)
    · simp only [Reader.step, FifoReader.step, tcpRecv_open hsock h.reads len, Option.getD_some,
        h.returned, h.queue]
      rfl
    · change ((tcpRecv c.stack sock len).2.heap sock).Reads
      rw [Socket.Reads, (tcpRecv_self c.stack sock len).2.2.1]
      exact h.reads

/-! ## Runs -/

/-- **A run does the same to both.** -/
theorem Reader.Is.run {c : Reader} {f : FifoReader} {events : List Event} (hsock : sock ≠ 0)
    (h : c.Is sock f) (hevents : Allowed (Reader.step sock) (InOrder sock) c events) :
    (runFrom (Reader.step sock) c events).Is sock (runFrom FifoReader.step f events) := by
  induction events generalizing c f with
  | nil => exact h
  | cons e events ih => exact ih (h.step hsock hevents.1) hevents.2

/-- **The receive buffer is a bounded queue.** From any counters with no
more than 65536 bytes between them, and for data in order and reads of
any lengths in any order: the bound is kept, the bytes queued and the
bytes returned are those of a bounded queue, and every copy that the
next segment or the next read makes stays within the buffer. -/
theorem buffer_is_fifo {t : Stack} (hsock : sock ≠ 0) (hreads : (t.heap sock).Reads)
    (hbound : (t.heap sock).avail ≤ 65536) {events : List Event}
    (h : Allowed (Reader.step sock) (InOrder sock) ⟨t, []⟩ events) :
    let c := runFrom (Reader.step sock) ⟨t, []⟩ events
    let f := runFrom FifoReader.step ⟨(t.heap sock).fifo hbound, []⟩ events
    let s := c.stack.heap sock
    s.avail ≤ 65536 ∧ s.queue = f.fifo.items ∧ c.returned = f.returned ∧
      (∀ len, ∀ p ∈ s.storeCopies len, p.1 + p.2 ≤ 65536) ∧
      ∀ len, ∀ p ∈ s.fetchCopies len, p.1 + p.2 ≤ 65536 := by
  intro c f s
  have his : c.Is sock f := Reader.Is.run hsock ⟨rfl, rfl, hreads⟩ h
  exact ⟨his.avail, his.queue, his.returned, fun _ => copiesAt_within _ _,
    fun _ => copiesAt_within _ _⟩

/-- Counters about to go over `2 ^ 32`: three bytes are stored across the
end, in two copies, and read back in two reads. -/
theorem buffer_is_fifo_wrap :
    let s : Socket :=
      { Socket.zero with
        state := .established, localPort := 80, remotePort := 5000, rcvNxt := 7,
        rxHead := 0xFFFFFFFE, rxTail := 0xFFFFFFFE }
    let t : Stack := { tcpInit (fun _ => s) none with sockets := [1] }
    let payload : ℕ → UInt8 := fun i => UInt8.ofNat (i + 1)
    let stored := (s.store payload 3).rxBuf.bytes
    let events : List Event :=
      [.rx ⟨5000, 80, 7, 0, 5, tcpAck, 0, 0, 0⟩ payload 3 [], .recv 1, .recv 5]
    stored = Ring.copy (Ring.copy s.rxBuf.bytes 65534 payload 2) 0 (fun i => payload (2 + i)) 1 ∧
      ((s.store payload 3).fetch 5).1 = Ring.read stored 65534 2 ++ Ring.read stored 0 1 ∧
      ((runFrom (Reader.step 1) ⟨t, []⟩ events).stack.heap 1).queue = [] ∧
      (runFrom (Reader.step 1) ⟨t, []⟩ events).returned = [1, 2, 3] := by
  intro s t payload stored events
  have hallowed : Allowed (Reader.step 1) (InOrder 1) ⟨t, []⟩ events :=
    ⟨⟨rfl, rfl, rfl⟩, trivial, trivial, trivial⟩
  have hfifo := buffer_is_fifo (by decide) (Or.inl rfl) (by decide) hallowed
  have hstore : s.storeCopies 3 = [(65534, 2), (0, 1)] := by decide
  have hfetch : (s.store payload 3).fetchCopies 5 = [(65534, 2), (0, 1)] := by decide
  refine ⟨?_, ?_, hfifo.2.1.trans (by decide), hfifo.2.2.1.trans (by decide)⟩
  · simp only [stored, store_eq_copies, hstore, List.foldl_cons, List.foldl_nil, Nat.zero_add]
  · rw [fetch_eq_copies, hfetch]
    rfl

end Tcp

end Kos
