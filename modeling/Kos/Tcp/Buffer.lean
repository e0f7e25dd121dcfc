import Kos.Tcp.Model
/-!
# Tcp — the receive buffer

The receive buffer is a ring between the counters `rx_head` and
`rx_tail`, which run modulo `2 ^ 32`. The size of the ring divides that,
so the counters stand for cells across the wrap: storing appends to the
queue what there is room for, and `tcp_recv` takes from its front.
-/

namespace Kos

namespace Tcp

/-- The number of bytes queued. -/
def Socket.avail (s : Socket) : ℕ := (s.rxTail - s.rxHead).toNat

/-- The bytes queued, oldest first. -/
def Socket.queue (s : Socket) : List UInt8 :=
  Ring.contents 65536 s.rxBuf.bytes s.rxHead.toNat s.avail

/-- The bytes held in the transmit buffer. -/
def Socket.txQueue (s : Socket) : List UInt8 :=
  Ring.contents 65536 s.txBuf.bytes s.txHead.toNat (s.txTail - s.txHead).toNat

variable {s : Socket} {payload : ℕ → UInt8} {len : UInt16}

theorem length_queue (s : Socket) : s.queue.length = s.avail := by
  rw [Socket.queue, Ring.contents, List.length_map, List.length_range]

theorem toNat_clamp (len : UInt16) (limit : UInt32) :
    (clamp len limit).toNat = min len.toNat limit.toNat := by
  have hlen := len.toNat_lt
  unfold clamp
  split
  · rename_i h
    rw [UInt32.lt_iff_toNat_lt, UInt16.toNat_toUInt32] at h
    rw [UInt32.toNat_toUInt16]
    omega
  · rename_i h
    rw [UInt32.lt_iff_toNat_lt, UInt16.toNat_toUInt32] at h
    omega

theorem toNat_space (h : s.avail ≤ 65536) : s.space.toNat = 65536 - s.avail := by
  unfold Socket.avail at h
  unfold Socket.space Socket.avail
  rw [UInt32.toNat_sub, show tcpRxBufSize.toNat = 65536 from rfl]
  omega

/-- The counters differ by what is queued. -/
theorem tail_mod (s : Socket) : s.rxTail.toNat % 65536 = (s.rxHead.toNat + s.avail) % 65536 := by
  have hhead := s.rxHead.toNat_lt
  have htail := s.rxTail.toNat_lt
  unfold Socket.avail
  rw [UInt32.toNat_sub]
  omega

/-- **A counter and a block at it**, in numbers: the cell of the counter,
whether the block runs over the end, and its two pieces. -/
theorem counter_pieces (c : UInt32) (m : UInt16) :
    (c % tcpRxBufSize).toNat = c.toNat % 65536 ∧
      (tcpRxBufSize < c % tcpRxBufSize + m.toUInt32 ↔ c.toNat % 65536 + m.toNat > 65536) ∧
      (tcpRxBufSize - c % tcpRxBufSize).toNat = 65536 - c.toNat % 65536 ∧
      (c.toNat % 65536 + m.toNat > 65536 → (m.toUInt32 - (tcpRxBufSize - c % tcpRxBufSize)).toNat =
        m.toNat - (65536 - c.toNat % 65536)) := by
  have hm := m.toNat_lt
  have hlt : c.toNat % 65536 < 65536 := Nat.mod_lt _ (by decide)
  have hsize : tcpRxBufSize.toNat = 65536 := rfl
  have hcell : (c % tcpRxBufSize).toNat = c.toNat % 65536 := UInt32.toNat_mod ..
  have hfirst : (tcpRxBufSize - c % tcpRxBufSize).toNat = 65536 - c.toNat % 65536 := by
    rw [UInt32.toNat_sub, hcell, hsize]
    omega
  refine ⟨hcell, ?_, hfirst, fun hwrap => ?_⟩
  · rw [UInt32.lt_iff_toNat_lt, UInt32.toNat_add, hcell, UInt16.toNat_toUInt32, hsize,
      Nat.mod_eq_of_lt (by omega)]
  · rw [UInt32.toNat_sub, hfirst, UInt16.toNat_toUInt32]
    omega

/-! ## Storing -/

theorem setRx_fields (s : Socket) (rxBuf : Block) (rxTail rcvNxt : UInt32) :
    (s.setRx rxBuf rxTail rcvNxt).localPort = s.localPort ∧
      (s.setRx rxBuf rxTail rcvNxt).remotePort = s.remotePort ∧
      (s.setRx rxBuf rxTail rcvNxt).state = s.state ∧
      (s.setRx rxBuf rxTail rcvNxt).sndUna = s.sndUna ∧
      (s.setRx rxBuf rxTail rcvNxt).rxHead = s.rxHead :=
  ⟨rfl, rfl, rfl, rfl, rfl⟩

/-- Storing writes to the buffer and its counter, and to `rcv_nxt`. -/
theorem store_fields (s : Socket) (payload : ℕ → UInt8) (len : UInt16) :
    (s.store payload len).localPort = s.localPort ∧
      (s.store payload len).remotePort = s.remotePort ∧ (s.store payload len).state = s.state ∧
      (s.store payload len).sndUna = s.sndUna ∧ (s.store payload len).rxHead = s.rxHead := by
  rw [Socket.store]
  exact setRx_fields ..

/-- It writes to neither the local address nor `snd_nxt`. -/
theorem setRx_local (s : Socket) (rxBuf : Block) (rxTail rcvNxt : UInt32) :
    (s.setRx rxBuf rxTail rcvNxt).localAddr = s.localAddr ∧
      (s.setRx rxBuf rxTail rcvNxt).sndNxt = s.sndNxt :=
  ⟨rfl, rfl⟩

theorem store_local (s : Socket) (payload : ℕ → UInt8) (len : UInt16) :
    (s.store payload len).localAddr = s.localAddr ∧ (s.store payload len).sndNxt = s.sndNxt := by
  rw [Socket.store]
  exact setRx_local ..

theorem store_rxTail (s : Socket) (payload : ℕ → UInt8) (len : UInt16) :
    (s.store payload len).rxTail = s.rxTail + (clamp len s.space).toUInt32 := rfl

theorem store_rcvNxt (s : Socket) (payload : ℕ → UInt8) (len : UInt16) :
    (s.store payload len).rcvNxt = s.rcvNxt + (clamp len s.space).toUInt32 := rfl

/-- The copy in two pieces or one is a copy into the ring. -/
theorem store_bytes (s : Socket) (payload : ℕ → UInt8) (len : UInt16) :
    (s.store payload len).rxBuf.bytes =
      Ring.push 65536 s.rxBuf.bytes s.rxTail.toNat payload (clamp len s.space).toNat := by
  obtain ⟨hcell, hwrap, hfirst, hrest⟩ := counter_pieces s.rxTail (clamp len s.space)
  simp only [Socket.store, Socket.setRx, Ring.push, hwrap, hfirst, hcell]
  split
  · rename_i hover
    rw [hrest hover]
  · rfl

/-- **Storing appends to the queue** what there is room for. -/
theorem store_queue (payload : ℕ → UInt8) (len : UInt16) (h : s.avail ≤ 65536) :
    (s.store payload len).avail = s.avail + min len.toNat (65536 - s.avail) ∧
      (s.store payload len).queue =
        s.queue ++ (List.range (min len.toNat (65536 - s.avail))).map payload := by
  have hm : (clamp len s.space).toNat = min len.toNat (65536 - s.avail) := by
    rw [toNat_clamp, toNat_space h]
  obtain ⟨-, -, -, -, hheadEq⟩ := store_fields s payload len
  have havail : (s.store payload len).avail = s.avail + min len.toNat (65536 - s.avail) := by
    have hhead := s.rxHead.toNat_lt
    have htail := s.rxTail.toNat_lt
    have hsub : s.avail = (2 ^ 32 - s.rxHead.toNat + s.rxTail.toNat) % 2 ^ 32 :=
      UInt32.toNat_sub ..
    rw [Socket.avail, hheadEq, store_rxTail, UInt32.toNat_sub, UInt32.toNat_add,
      UInt16.toNat_toUInt32, hm]
    omega
  refine ⟨havail, ?_⟩
  rw [Socket.queue, havail, store_bytes, hm, hheadEq]
  exact Ring.contents_push (by decide) (by omega) (tail_mod s)

/-! ## Reading -/

/-- The socket after `tcp_recv` of `len` bytes. -/
def Socket.fetched (s : Socket) (len : UInt16) : Socket :=
  { s with rxHead := s.rxHead + (s.fetch len).2.toUInt32 }

/-- The copy in two pieces or one is a copy out of the ring. -/
theorem fetch_bytes (s : Socket) (len : UInt16) :
    (s.fetch len).1 =
      Ring.pop 65536 s.rxBuf.bytes s.rxHead.toNat (clamp len (s.rxTail - s.rxHead)).toNat := by
  obtain ⟨hcell, hwrap, hfirst, hrest⟩ :=
    counter_pieces s.rxHead (clamp len (s.rxTail - s.rxHead))
  simp only [Socket.fetch, Ring.pop, hwrap, hfirst, hcell]
  split
  · rename_i hover
    rw [hrest hover]
  · rfl

/-- **`tcp_recv` takes from the front of the queue** what there is of it. -/
theorem fetch_queue (s : Socket) (len : UInt16) :
    (s.fetched len).avail = s.avail - min len.toNat s.avail ∧
      s.queue = (s.fetch len).1 ++ (s.fetched len).queue := by
  have hm : (s.fetch len).2.toNat = min len.toNat s.avail := toNat_clamp ..
  have hhead := s.rxHead.toNat_lt
  have htail := s.rxTail.toNat_lt
  have hlen := len.toNat_lt
  have hsub : s.avail = (2 ^ 32 - s.rxHead.toNat + s.rxTail.toNat) % 2 ^ 32 := UInt32.toNat_sub ..
  have hnew : (s.fetched len).rxHead.toNat = (s.rxHead.toNat + min len.toNat s.avail) % 2 ^ 32 := by
    change (s.rxHead + (s.fetch len).2.toUInt32).toNat = _
    rw [UInt32.toNat_add, UInt16.toNat_toUInt32, hm]
  have havail : (s.fetched len).avail = s.avail - min len.toNat s.avail := by
    change (s.rxTail - (s.fetched len).rxHead).toNat = _
    rw [UInt32.toNat_sub, hnew]
    omega
  refine ⟨havail, ?_⟩
  have hmod : (s.fetched len).rxHead.toNat % 65536 =
      (s.rxHead.toNat + min len.toNat s.avail) % 65536 := by
    rw [hnew]
    omega
  have hsplit : s.avail = min len.toNat s.avail + (s.avail - min len.toNat s.avail) := by omega
  have hrest : (s.fetched len).queue = Ring.contents 65536 s.rxBuf.bytes
      (s.rxHead.toNat + min len.toNat s.avail) (s.avail - min len.toNat s.avail) := by
    rw [Socket.queue, havail]
    exact Ring.contents_mod hmod
  rw [hrest, fetch_bytes, toNat_clamp, Ring.pop_eq (by decide) (by omega)]
  conv_lhs => rw [Socket.queue, hsplit]
  exact Ring.contents_add ..

/-- The bytes `tcp_recv` copies out are the oldest of the queue. -/
theorem fetch_eq_take (s : Socket) (len : UInt16) : (s.fetch len).1 = s.queue.take len.toNat := by
  obtain ⟨havail, hqueue⟩ := fetch_queue s len
  have hlen : (s.fetch len).1.length = min len.toNat s.avail := by
    have hsum := congrArg List.length hqueue
    rw [List.length_append, length_queue, length_queue, havail] at hsum
    omega
  have htake : (s.fetch len).1 = s.queue.take (min len.toNat s.avail) := by
    rw [hqueue, ← hlen, List.take_left]
  rw [htake, List.take_eq_take_iff, length_queue]
  omega

end Tcp

end Kos
