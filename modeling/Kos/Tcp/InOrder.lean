import Kos.Common.InTurn
import Kos.Tcp.Stream
/-!
# Tcp — what gets through

`tcp_rx` keeps nothing that comes before its turn, and no segment is
ever sent again: whether a stream arrives is up to the network alone.
Cut into segments, and with room for each, the bytes received are those
of the segments that came in their turn, and the stream is complete
exactly if all of them came in order, with whatever else between.
-/

namespace Kos

namespace Tcp

variable {segs : List (List UInt8)} {isn : UInt32} {dport sport : UInt16} {sock k n : ℕ}
  {piece : List UInt8} {tcp : TcpHeader} {payload : ℕ → UInt8} {len : UInt16}

/-! ## A stream in segments -/

/-- Where the `k`th segment starts. -/
def segOffset (segs : List (List UInt8)) (k : ℕ) : ℕ := (segs.take k).flatten.length

theorem segOffset_succ (h : segs[k]? = some piece) :
    segOffset segs (k + 1) = segOffset segs k + piece.length := by
  rw [segOffset, segOffset, List.take_add_one, h, Option.toList_some, List.flatten_append,
    List.length_append, List.flatten_singleton]

/-- The stream around a segment. -/
theorem flatten_eq (h : segs[k]? = some piece) :
    segs.flatten = (segs.take k).flatten ++ (piece ++ (segs.drop (k + 1)).flatten) := by
  obtain ⟨hlt, rfl⟩ := List.getElem?_eq_some_iff.1 h
  rw [← List.flatten_cons, ← List.drop_eq_getElem_cons hlt, ← List.flatten_append,
    List.take_append_drop]

theorem segOffset_le (segs : List (List UInt8)) (k : ℕ) :
    segOffset segs k ≤ segs.flatten.length := by
  conv_rhs => rw [← List.take_append_drop k segs, List.flatten_append, List.length_append]
  exact Nat.le_add_right ..

theorem take_flatten (segs : List (List UInt8)) (k : ℕ) :
    segs.flatten.take (segOffset segs k) = (segs.take k).flatten := by
  have hsplit : segs.flatten = (segs.take k).flatten ++ (segs.drop k).flatten := by
    rw [← List.flatten_append, List.take_append_drop]
  rw [hsplit]
  exact List.take_left' rfl

/-- **Segments that are not empty start at different places.** -/
theorem segOffset_lt (hne : ∀ piece ∈ segs, piece ≠ []) (hkn : k < n) (hn : n ≤ segs.length) :
    segOffset segs k < segOffset segs n := by
  induction n with
  | zero => omega
  | succ n ih =>
    obtain ⟨piece, hpiece⟩ : ∃ piece, segs[n]? = some piece :=
      ⟨_, List.getElem?_eq_getElem (by omega)⟩
    have hpos := List.length_pos_of_ne_nil (hne piece (List.mem_of_getElem? hpiece))
    rw [segOffset_succ hpiece]
    rcases Nat.lt_succ_iff_lt_or_eq.1 hkn with hlt | rfl
    · have := ih hlt (by omega)
      omega
    · omega

theorem segOffset_inj (hne : ∀ piece ∈ segs, piece ≠ []) (hk : k ≤ segs.length)
    (hn : n ≤ segs.length) (h : segOffset segs k = segOffset segs n) : k = n := by
  rcases Nat.lt_trichotomy k n with hlt | heq | hlt
  · have := segOffset_lt hne hlt hn
    omega
  · exact heq
  · have := segOffset_lt hne hlt hk
    omega

/-! ## Arrivals -/

/-- A segment arrives, with its number, or the application reads. -/
inductive Arrival
  | segment (k : ℕ) (tcp : TcpHeader) (payload : ℕ → UInt8) (len : UInt16) (mem : List Block)
  | recv (len : UInt16)

/-- What happens to the connection. -/
def Arrival.event : Arrival → Event
  | .segment _ tcp payload len mem => .rx tcp payload len mem
  | .recv len => .recv len

/-- The number of a segment. -/
def Arrival.number : Arrival → List ℕ
  | .segment k _ _ _ _ => [k]
  | .recv _ => []

/-- The connection, and the numbers of the segments that arrived. -/
structure Arrived where
  reader : Reader
  numbers : List ℕ

/-- One arrival. -/
def Arrived.step (sock : ℕ) (c : Arrived) (a : Arrival) : Arrived where
  reader := c.reader.step sock a.event
  numbers := c.numbers ++ a.number

/-- **A segment of the cut stream**, and no FIN. -/
structure IsPiece (segs : List (List UInt8)) (isn : UInt32) (dport sport : UInt16) (k : ℕ)
    (tcp : TcpHeader) (payload : ℕ → UInt8) (len : UInt16) (piece : List UInt8) : Prop where
  numbered : segs[k]? = some piece
  dstPort : tcp.dstPort = dport
  srcPort : tcp.srcPort = sport
  fin : hasFlag tcp.flags tcpFin = false
  seq : tcp.seq = isn + UInt32.ofNat (segOffset segs k)
  length : len.toNat = piece.length
  bytes : ∀ i < len.toNat, piece[i]? = some (payload i)

/-- **What may arrive**: segments of the stream there is room for. -/
def Arrival.Ok (segs : List (List UInt8)) (isn : UInt32) (dport sport : UInt16) (sock : ℕ)
    (c : Arrived) : Arrival → Prop
  | .segment k tcp payload len _ =>
      (∃ piece, IsPiece segs isn dport sport k tcp payload len piece) ∧
      (c.reader.stack.heap sock).avail + len.toNat ≤ 65536
  | .recv _ => True

/-- A segment is a slice of the stream. -/
theorem IsPiece.sliceAt (h : IsPiece segs isn dport sport k tcp payload len piece) :
    SliceAt segs.flatten isn (segOffset segs k) tcp payload len := by
  have hflat := flatten_eq h.numbered
  refine ⟨?_, h.seq, fun i hi => ?_⟩
  · rw [hflat, List.length_append, List.length_append, ← segOffset, h.length]
    omega
  · have hi' : i < piece.length := h.length ▸ hi
    rw [hflat, segOffset, List.getElem?_append_right (Nat.le_add_right ..),
      Nat.add_sub_cancel_left, List.getElem?_append_left hi']
    exact h.bytes i hi

/-- **The invariant**: the segments that came in turn have been taken. -/
structure Arrived.Inv (segs : List (List UInt8)) (isn : UInt32) (dport sport : UInt16) (sock : ℕ)
    (c : Arrived) : Prop where
  reader : c.reader.Inv segs.flatten isn dport sport sock
  established : (c.reader.stack.heap sock).state = .established
  le : inTurn c.numbers ≤ segs.length
  follows : (c.reader.stack.heap sock).Follows segs.flatten isn c.reader.returned
    (segOffset segs (inTurn c.numbers))

variable {c : Arrived}

/-- **A segment is taken if it is its turn**, and dropped if not. -/
theorem Arrived.Inv.segment {mem : List Block} (h : c.Inv segs isn dport sport sock)
    (hne : ∀ piece ∈ segs, piece ≠ []) (hlen : segs.flatten.length < 2 ^ 31)
    (hpiece : IsPiece segs isn dport sport k tcp payload len piece)
    (hroom : (c.reader.stack.heap sock).avail + len.toNat ≤ 65536) :
    (c.step sock (.segment k tcp payload len mem)).Inv segs isn dport sport sock := by
  have hslice := hpiece.sliceAt
  have hkt : k < segs.length := (List.getElem?_eq_some_iff.1 hpiece.numbered).1
  have hpos := List.length_pos_of_ne_nil (hne piece (List.mem_of_getElem? hpiece.numbered))
  have hpos' : 0 < len := by
    rw [UInt16.lt_iff_toNat_lt, hpiece.length]
    exact hpos
  -- the next number asked for is that of one segment only
  have hplace : ∀ m, (c.reader.stack.heap sock).Follows segs.flatten isn c.reader.returned m →
      tcp.seq = (c.reader.stack.heap sock).rcvNxt → segOffset segs k = m := by
    intro m hm hseq
    refine offset_eq isn hlen (segOffset_le segs k) hm.bound ?_
    rw [← hpiece.seq, hseq, hm.next h.established]
  obtain ⟨s₁, hreceive, hstate₁, hfollows⟩ :=
    h.follows.established h.established hslice fun _ hseq => hplace _ h.follows hseq
  obtain ⟨hheap, -⟩ := h.reader.rx_self hpiece.dstPort hpiece.srcPort payload len mem
  have hself : (c.reader.step sock (.rx tcp payload len mem)).stack.heap sock = s₁ := by
    rw [hheap, Function.update_self, hreceive, Socket.takeFin, hpiece.fin]
    rfl
  have hnumbers : inTurn (c.numbers ++ [k]) = takeNumber (inTurn c.numbers) k :=
    inTurn_concat ..
  have htaken : segOffset segs (inTurn c.numbers) + (c.reader.stack.heap sock).taken tcp len =
      segOffset segs (takeNumber (inTurn c.numbers) k) := by
    unfold takeNumber Socket.taken
    by_cases hk : k = inTurn c.numbers
    · have hseq : tcp.seq = (c.reader.stack.heap sock).rcvNxt := by
        rw [hpiece.seq, h.follows.next h.established, hk]
      rw [if_pos hk, if_pos ⟨hpos', hseq⟩, ← hk, segOffset_succ hpiece.numbered, ← hpiece.length]
      omega
    · rw [if_neg hk, if_neg fun hc => hk (segOffset_inj hne hkt.le h.le
        (hplace _ h.follows hc.2)), Nat.add_zero]
  refine ⟨h.reader.rx hpiece.dstPort hpiece.srcPort hslice fun m hm _ _ => hplace m hm, ?_, ?_, ?_⟩
  · exact (congrArg Socket.state hself).trans hstate₁
  · rw [Arrived.step, Arrival.number, hnumbers]
    have hle := h.le
    unfold takeNumber
    split <;> omega
  · rw [htaken, ← hnumbers] at hfollows
    change Socket.Follows _ _ _ _ ((c.reader.step sock (.rx tcp payload len mem)).stack.heap sock)
    rw [hself]
    exact hfollows

/-- **Reading keeps the invariant**, and asks for nothing new. -/
theorem Arrived.Inv.recv (h : c.Inv segs isn dport sport sock) (len : UInt16) :
    (c.step sock (.recv len)).Inv segs isn dport sport sock := by
  have hnumbers : c.numbers ++ Arrival.number (.recv len) = c.numbers := List.append_nil _
  suffices hkeep : ((c.reader.step sock (.recv len)).stack.heap sock).state = .established ∧
      ((c.reader.step sock (.recv len)).stack.heap sock).Follows segs.flatten isn
        (c.reader.step sock (.recv len)).returned (segOffset segs (inTurn c.numbers)) by
    rw [Arrived.step, hnumbers]
    exact ⟨h.reader.recv len, hkeep.1, h.le, hkeep.2⟩
  have hsame : ∀ r : Option (List UInt8), r.getD [] = [] →
      (c.reader.stack.heap sock).state = .established ∧
      (c.reader.stack.heap sock).Follows segs.flatten isn (c.reader.returned ++ r.getD [])
        (segOffset segs (inTurn c.numbers)) := by
    intro r hr
    rw [hr, List.append_nil]
    exact ⟨h.established, h.follows⟩
  simp only [Reader.step, tcpRecv]
  split
  · exact hsame _ rfl
  · split
    · exact hsame _ rfl
    · split
      · exact hsame _ rfl
      · rw [modify_heap, Function.update_self]
        exact ⟨h.established, h.follows.fetched len⟩

/-- **What gets through is what came in its turn.** On an established
connection with room for every segment, the bytes returned and queued are
those of the segments that arrived in order, each after the one before
it, and they are all of the stream exactly if its segments arrived in
this order, whatever came between them. -/
theorem through_iff_in_order (hne : ∀ piece ∈ segs, piece ≠ [])
    (hlen : segs.flatten.length < 2 ^ 31) {t : Stack} (hfound : t.lookup dport sport = some sock)
    (hstate : (t.heap sock).state = .established)
    (hempty : (t.heap sock).rxHead = (t.heap sock).rxTail) {arrivals : List Arrival}
    (hrun : Allowed (Arrived.step sock)
      (fun c a => a.Ok segs (t.heap sock).rcvNxt dport sport sock c) ⟨⟨t, []⟩, []⟩ arrivals) :
    let c := runFrom (Arrived.step sock) ⟨⟨t, []⟩, []⟩ arrivals
    let bytes := c.reader.returned ++ (c.reader.stack.heap sock).queue
    bytes = (segs.take (inTurn c.numbers)).flatten ∧
      (bytes = segs.flatten ↔ List.Sublist (List.range segs.length) c.numbers) := by
  intro c bytes
  have hports : (t.heap sock).localPort = dport ∧ (t.heap sock).remotePort = sport := by
    have := List.find?_some hfound
    simpa [Socket.accepts, hstate] using this
  have havail : (t.heap sock).avail = 0 := by
    rw [Socket.avail, hempty, UInt32.sub_self]
    rfl
  have hstart : (t.heap sock).Follows segs.flatten (t.heap sock).rcvNxt [] 0 := by
    refine ⟨by omega, Nat.zero_le _, ?_, fun _ => (UInt32.add_zero _).symm⟩
    rw [Socket.queue, havail]
    rfl
  have hinv : c.Inv segs (t.heap sock).rcvNxt dport sport sock := by
    refine hrun.invariant (P := Arrived.Inv segs (t.heap sock).rcvNxt dport sport sock) ?_
      ⟨⟨hfound, hports, Or.inl hstate, 0, hstart⟩, hstate, Nat.zero_le _, hstart⟩
    intro c a hc ha
    cases a with
    | segment k tcp payload len mem =>
      obtain ⟨⟨piece, hpiece⟩, hroom⟩ := ha
      exact hc.segment hne hlen hpiece hroom
    | recv len => exact hc.recv len
  have hbytes : bytes = (segs.take (inTurn c.numbers)).flatten :=
    hinv.follows.bytes.trans (take_flatten segs _)
  refine ⟨hbytes, ?_⟩
  rw [range_sublist_iff, hbytes]
  constructor
  · intro h
    refine (segOffset_inj hne hinv.le le_rfl ?_).ge
    rw [segOffset, h, segOffset, List.take_length]
  · intro h
    rw [List.take_of_length_le h]

/-- Three segments of which the second comes before its turn and is sent
again, with the first repeated between. -/
theorem through_iff_in_order_three :
    let segs : List (List UInt8) := [[1, 2], [3], [4, 5, 6]]
    let s : Socket :=
      { Socket.zero with state := .established, localPort := 80, remotePort := 5000, rcvNxt := 7 }
    let t : Stack := { tcpInit (fun _ => s) none with sockets := [1] }
    let rx (k : ℕ) (len : UInt16) : Arrival :=
      .segment k ⟨5000, 80, 7 + UInt32.ofNat (segOffset segs k), 0, 5, tcpAck, 0, 0, 0⟩
        (fun i => (segs.getD k []).getD i 0) len []
    let c := runFrom (Arrived.step 1) ⟨⟨t, []⟩, []⟩
      [rx 1 1, rx 0 2, .recv 1, rx 0 2, rx 1 1, rx 2 3]
    let bytes := c.reader.returned ++ (c.reader.stack.heap 1).queue
    bytes = [1, 2, 3, 4, 5, 6] ∧ bytes = (segs.take (inTurn c.numbers)).flatten ∧
      (bytes = segs.flatten ↔ List.Sublist (List.range segs.length) c.numbers) := by
  intro segs s t rx c bytes
  refine ⟨by decide +kernel, through_iff_in_order (by decide) (by decide)
    (show Stack.lookup _ 80 5000 = some 1 from rfl) rfl rfl ?_⟩
  have h₀ : ∃ piece, IsPiece segs 7 80 5000 0 ⟨5000, 80, 7, 0, 5, tcpAck, 0, 0, 0⟩
      (fun i => (segs.getD 0 []).getD i 0) 2 piece :=
    ⟨_, rfl, rfl, rfl, by decide, rfl, rfl, by decide⟩
  have h₁ : ∃ piece, IsPiece segs 7 80 5000 1 ⟨5000, 80, 9, 0, 5, tcpAck, 0, 0, 0⟩
      (fun i => (segs.getD 1 []).getD i 0) 1 piece :=
    ⟨_, rfl, rfl, rfl, by decide, rfl, rfl, by decide⟩
  have h₂ : ∃ piece, IsPiece segs 7 80 5000 2 ⟨5000, 80, 10, 0, 5, tcpAck, 0, 0, 0⟩
      (fun i => (segs.getD 2 []).getD i 0) 3 piece :=
    ⟨_, rfl, rfl, rfl, by decide, rfl, rfl, by decide⟩
  exact ⟨⟨h₁, by decide +kernel⟩, ⟨h₀, by decide +kernel⟩, trivial, ⟨h₀, by decide +kernel⟩,
    ⟨h₁, by decide +kernel⟩, ⟨h₂, by decide +kernel⟩, trivial⟩

end Tcp

end Kos
