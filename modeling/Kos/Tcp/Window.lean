import Kos.Tcp.Sequence
/-!
# Tcp — what is sent and not yet acknowledged

`snd_una` should move from where it is towards `snd_nxt`. An opening
connection checks what is acknowledged; an established one takes any
number for `snd_una`. It moves forward, and stays within what was sent,
exactly if every acknowledgement that arrives is for a number between
the two.
-/

namespace Kos

namespace Tcp

variable {t t' : Stack} {sock : ℕ} {c : Call} {tcp : TcpHeader} {payload : ℕ → UInt8}
  {len : UInt16} {x y : UInt32} {ps : List Packet}

/-- The sequence numbers a segment takes. -/
def Packet.units (p : Packet) : ℕ :=
  p.data.length + (if hasFlag p.tcp.flags tcpSyn then 1 else 0) +
    if hasFlag p.tcp.flags tcpFin then 1 else 0

/-- The segment acknowledges something to the socket, while that is
established. -/
def Stack.Acks (t : Stack) (sock : ℕ) (tcp : TcpHeader) : Prop :=
  t.lookup tcp.dstPort tcp.srcPort = some sock ∧ (t.heap sock).state = .established ∧
    hasFlag tcp.flags tcpAck = true

instance Stack.Acks.decidable (t : Stack) (sock : ℕ) (tcp : TcpHeader) : Decidable (t.Acks sock tcp) :=
  inferInstanceAs (Decidable (t.lookup tcp.dstPort tcp.srcPort = some sock ∧
    (t.heap sock).state = .established ∧ hasFlag tcp.flags tcpAck = true))

/-- What is left of `n` unacknowledged numbers when a call acknowledges
those up to a number. A number that was not sent acknowledges nothing. -/
def Stack.unacked (t : Stack) (sock n : ℕ) (c : Call) : ℕ :=
  match c.op with
  | .rx tcp _ _ =>
    if t.Acks sock tcp ∧ (tcp.ack - (t.heap sock).sndUna).toNat ≤ n then
      n - (tcp.ack - (t.heap sock).sndUna).toNat
    else n
  | _ => n

/-- The stack, and how many numbers one socket has sent that were not
acknowledged. -/
structure Window where
  stack : Stack
  outstanding : ℕ

/-- One call. -/
def Window.step (sock : ℕ) (w : Window) (c : Call) : Window :=
  ⟨w.stack.step c, w.stack.unacked sock w.outstanding c +
    ((w.stack.sends sock c).map Packet.units).sum⟩

/-- **`snd_una` moves forward**, not past `snd_nxt`, and there is no more
between them than was sent and not acknowledged. -/
def Forward (sock : ℕ) (w w' : Window) : Prop :=
  ((w'.stack.heap sock).sndUna - (w.stack.heap sock).sndUna).toNat ≤
      ((w'.stack.heap sock).sndNxt - (w.stack.heap sock).sndUna).toNat ∧
    ((w'.stack.heap sock).sndNxt - (w'.stack.heap sock).sndUna).toNat ≤ w'.outstanding

instance Forward.decidable (sock : ℕ) (w w' : Window) : Decidable (Forward sock w w') :=
  inferInstanceAs (Decidable (_ ∧ _))

/-- A segment, or a call of `tcp_send`. -/
def Op.traffic : Op → Bool
  | .rx _ _ _ => true
  | .send _ _ _ => true
  | _ => false

/-- **What is acknowledged was sent**: it is between `snd_una` and
`snd_nxt`. -/
def InWindow (sock : ℕ) (w : Window) (c : Call) : Prop :=
  match c.op with
  | .rx tcp _ _ =>
    w.stack.Acks sock tcp → (tcp.ack - (w.stack.heap sock).sndUna).toNat ≤
      ((w.stack.heap sock).sndNxt - (w.stack.heap sock).sndUna).toNat
  | _ => True

/-! ## Numbers -/

theorem Packet.next_eq (p : Packet) : p.next = p.tcp.seq + UInt32.ofNat p.units := by
  unfold Packet.next Packet.units
  cases hasFlag p.tcp.flags tcpSyn <;> cases hasFlag p.tcp.flags tcpFin <;>
    simp [UInt32.ofNat_add, UInt32.add_assoc]

/-- Segments in a row move `snd_nxt` by what they take. -/
theorem Transmitted.eq (h : Transmitted x ps y) :
    y = x + UInt32.ofNat (ps.map Packet.units).sum := by
  induction ps generalizing x with
  | nil => exact h.trans (UInt32.add_zero x).symm
  | cons p ps ih =>
    obtain ⟨hseq, hrest⟩ := h
    rw [ih hrest, Packet.next_eq, hseq, List.map_cons, List.sum_cons, UInt32.ofNat_add,
      UInt32.add_assoc]

/-- Sending widens the window by no more than what was sent. -/
theorem toNat_sub_add_le (x y : UInt32) (n : ℕ) :
    (x + UInt32.ofNat n - y).toNat ≤ (x - y).toNat + n := by
  have hx := x.toNat_lt
  have hy := y.toNat_lt
  rw [UInt32.toNat_sub, UInt32.toNat_sub, UInt32.toNat_add, UInt32.toNat_ofNat']
  omega

/-- Acknowledging within the window narrows it by what was acknowledged. -/
theorem toNat_sub_ack {una nxt ack : UInt32} (h : (ack - una).toNat ≤ (nxt - una).toNat) :
    (nxt - ack).toNat = (nxt - una).toNat - (ack - una).toNat := by
  have h₁ := una.toNat_lt
  have h₂ := nxt.toNat_lt
  have h₃ := ack.toNat_lt
  rw [UInt32.toNat_sub, UInt32.toNat_sub] at *
  rw [UInt32.toNat_sub]
  omega

/-! ## One call -/

/-- A connection that was established and has not been closed here. -/
def Socket.Opened (s : Socket) : Prop :=
  s.state = .established ∨ s.state = .closeWait ∨ s.state = .closed

theorem takeData_fields (s : Socket) (tcp : TcpHeader) (payload : ℕ → UInt8) (len : UInt16) :
    (s.takeData tcp payload len).sndUna = s.sndUna ∧
      (s.takeData tcp payload len).sndNxt = s.sndNxt := by
  unfold Socket.takeData
  split
  · split
    · exact ⟨(store_fields s payload len).2.2.2.1, (store_local s payload len).2⟩
    · exact ⟨rfl, rfl⟩
  · exact ⟨rfl, rfl⟩

/-- **On an opened connection** a segment sets `snd_una` to what it
acknowledges, whatever that is, and leaves `snd_nxt`. -/
theorem receive_opened {s : Socket} (h : s.Opened) (tcp : TcpHeader) (payload : ℕ → UInt8)
    (len : UInt16) :
    (s.receive tcp payload len).Opened ∧ (s.receive tcp payload len).sndNxt = s.sndNxt ∧
      (s.receive tcp payload len).sndUna =
        if s.state = .established ∧ hasFlag tcp.flags tcpAck = true then tcp.ack else s.sndUna := by
  rcases h with hs | hs | hs
  · have hreceive := Socket.receive_of_established hs tcp payload len
    have hack : (s.takeAck tcp).sndNxt = s.sndNxt ∧ (s.takeAck tcp).sndUna =
        if s.state = .established ∧ hasFlag tcp.flags tcpAck = true then tcp.ack else s.sndUna := by
      unfold Socket.takeAck
      split
      · rename_i hflag
        exact ⟨rfl, (if_pos ⟨hs, hflag⟩).symm⟩
      · rename_i hflag
        exact ⟨rfl, (if_neg fun hc => hflag hc.2).symm⟩
    obtain ⟨huna, hnxt⟩ := takeData_fields (s.takeAck tcp) tcp payload len
    have hstate : ((s.takeAck tcp).takeData tcp payload len).state = .established := by
      rw [((s.takeAck tcp).take_ports tcp payload len).2.1.2.2,
        (s.take_ports tcp payload len).1.2.2, hs]
    rw [hreceive, Socket.takeFin]
    split
    · exact ⟨Or.inr (Or.inl rfl), hnxt.trans hack.1, huna.trans hack.2⟩
    · exact ⟨Or.inl hstate, hnxt.trans hack.1, huna.trans hack.2⟩
  · simp only [Socket.receive, hs]
    split
    · exact ⟨Or.inr (Or.inr rfl), rfl, rfl⟩
    · exact ⟨Or.inr (Or.inl hs), rfl, rfl⟩
  · have hself : s.receive tcp payload len = s := by simp [Socket.receive, hs]
    rw [hself, if_neg fun hc => absurd (hs.symm.trans hc.1) TcpState.noConfusion]
    exact ⟨Or.inr (Or.inr hs), rfl, rfl⟩

/-- A socket that a segment does not find stays. -/
theorem tcpRx_other (h : Fresh t c) (hin : sock ∈ t.sockets) (tcp : TcpHeader)
    (payload : ℕ → UInt8) (len : UInt16) (hother : t.lookup tcp.dstPort tcp.srcPort ≠ some sock) :
    (tcpRx (t.given c.mem) tcp payload len).heap sock = t.heap sock := by
  generalize hs : (tcpRx (t.given c.mem) tcp payload len).heap sock = s
  have hmoves := tcpRx_moves h hin tcp payload len
  rw [hs] at hmoves
  cases hmoves with
  | same => rfl
  | rx _ _ _ hfound => exact absurd hfound hother

/-- **A segment and an opened socket**: `snd_una` is what is
acknowledged, if anything is. -/
theorem tcpRx_opened (h : Fresh t c) (hin : sock ∈ t.sockets) (hopen : (t.heap sock).Opened)
    (tcp : TcpHeader) (payload : ℕ → UInt8) (len : UInt16) :
    let s := (tcpRx (t.given c.mem) tcp payload len).heap sock
    s.Opened ∧ s.sndNxt = (t.heap sock).sndNxt ∧
      s.sndUna = if t.Acks sock tcp then tcp.ack else (t.heap sock).sndUna := by
  intro s
  by_cases hfound : t.lookup tcp.dstPort tcp.srcPort = some sock
  · have hlisten : (t.heap sock).state ≠ .listen := by
      rcases hopen with hs | hs | hs <;> rw [hs] <;> exact TcpState.noConfusion
    have hself : s = (t.heap sock).receive tcp payload len := by
      have hheap := tcpRx_heap (t := t.given c.mem) payload len hfound hlisten
      simp only [s, hheap, Function.update_self, given_heap]
    have hacks : t.Acks sock tcp ↔
        (t.heap sock).state = .established ∧ hasFlag tcp.flags tcpAck = true :=
      ⟨fun hc => hc.2, fun hc => ⟨hfound, hc⟩⟩
    rw [hself]
    simp only [hacks]
    exact receive_opened hopen tcp payload len
  · have hself : s = t.heap sock := tcpRx_other h hin tcp payload len hfound
    rw [hself, if_neg fun hc => hfound hc.1]
    exact ⟨hopen, rfl, rfl⟩

/-- **The invariant of a window.** -/
structure Window.Inv (sock : ℕ) (w : Window) : Prop where
  listed : sock ∈ w.stack.sockets
  opened : (w.stack.heap sock).Opened
  width : ((w.stack.heap sock).sndNxt - (w.stack.heap sock).sndUna).toNat ≤ w.outstanding

/-- **`tcp_send` moves `snd_nxt` by what it sends** and nothing else. -/
theorem send_opened (h : Fresh t c) (hin : sock ∈ t.sockets) (hopen : (t.heap sock).Opened)
    {x : ℕ} {data : Block} (hop : c.op = .send x data len) :
    let s := (t.step c).heap sock
    s.Opened ∧ s.sndUna = (t.heap sock).sndUna ∧ s.sndNxt = (t.heap sock).sndNxt +
      UInt32.ofNat ((t.sends sock c).map Packet.units).sum := by
  intro s
  have hfields : s.Opened ∧ s.sndUna = (t.heap sock).sndUna := by
    generalize hs : (t.step c).heap sock = s' at *
    have hmoves := step_moves h hin
    rw [hs, hop] at hmoves
    have hself : s = s' := hs
    rw [hself]
    cases hmoves with
    | same => exact ⟨hopen, rfl⟩
    | send => exact ⟨hopen, rfl⟩
  refine ⟨hfields.1, hfields.2, ?_⟩
  rcases step_sends h hin with ⟨hnil, hnxt⟩ | ⟨addr, port, hconnect, -⟩ | ⟨-, htr⟩
  · rw [hnil]
    exact hnxt.trans (UInt32.add_zero _).symm
  · rw [hop] at hconnect
    exact Op.noConfusion hconnect
  · exact htr.eq

/-- **One call**: the invariant goes on, and `snd_una` moves forward
exactly if what is acknowledged was sent. -/
theorem Window.Inv.step {w : Window} (h : w.Inv sock) (hfresh : Fresh w.stack c)
    (htraffic : c.op.traffic = true) :
    (Forward sock w (w.step sock c) ↔ InWindow sock w c) ∧
      (Forward sock w (w.step sock c) → (w.step sock c).Inv sock) := by
  obtain ⟨t, n⟩ := w
  obtain ⟨hin, hopen, hwidth⟩ := h
  simp only at hin hopen hwidth hfresh
  cases hop : c.op with
  | rx tcp payload len =>
    have hstep : t.step c = tcpRx (t.given c.mem) tcp payload len := by
      rw [Stack.step, hop]
    obtain ⟨hopen', hnxt, huna⟩ := tcpRx_opened hfresh hin hopen tcp payload len
    rw [← hstep] at hopen' hnxt huna
    have hlisted : sock ∈ (t.step c).sockets := by
      rcases step_sockets t c with hsame | ⟨new, s, -, hcons, -⟩ | ⟨hclean, -⟩
      · rw [hsame]
        exact hin
      · rw [hcons]
        exact List.mem_cons_of_mem _ hin
      · rw [hop] at hclean
        exact Op.noConfusion hclean
    refine ⟨?_, fun hf => ⟨hlisted, hopen', hf.2⟩⟩
    simp only [Forward, Window.step, InWindow, Stack.unacked, hop, hnxt, huna]
    by_cases hacks : t.Acks sock tcp
    · simp only [hacks, if_true, true_and, forall_const]
      constructor
      · exact And.left
      · intro hle
        refine ⟨hle, ?_⟩
        rw [toNat_sub_ack hle, if_pos (hle.trans hwidth)]
        omega
    · simp only [hacks, if_false, false_and, UInt32.sub_self]
      refine iff_of_true ⟨Nat.zero_le _, by omega⟩ fun hc => hc.elim
  | send x data len =>
    obtain ⟨hopen', huna, hnxt⟩ := send_opened hfresh hin hopen hop
    have hlisted : sock ∈ (t.step c).sockets := by
      rw [Stack.step, hop]
      simp only [tcpSend]
      split
      · exact hin
      · split
        · exact hin
        · rw [tcpTx_sockets]
          exact hin
    refine ⟨?_, fun hf => ⟨hlisted, hopen', hf.2⟩⟩
    simp only [Forward, Window.step, InWindow, Stack.unacked, hop, hnxt, huna, UInt32.sub_self]
    refine iff_of_true ⟨Nat.zero_le _, ?_⟩ trivial
    exact (toNat_sub_add_le ..).trans (Nat.add_le_add_right hwidth _)
  | _ =>
    rw [hop] at htraffic
    exact absurd htraffic Bool.noConfusion

/-! ## Every run -/

/-- **When `snd_una` only moves forward.** For every established socket
and every sequence of segments and calls of `tcp_send`: exactly if all
that is acknowledged was sent. -/
theorem forward_iff_inWindow (hin : sock ∈ t.sockets) (hstate : (t.heap sock).state = .established)
    {calls : List Call} (h : Allowed Stack.step (fun t c => Fresh t c ∧ c.op.traffic = true) t calls) :
    let w : Window := ⟨t, ((t.heap sock).sndNxt - (t.heap sock).sndUna).toNat⟩
    Allowed (Window.step sock) (fun w c => Forward sock w (w.step sock c)) w calls ↔
      Allowed (Window.step sock) (InWindow sock) w calls := by
  intro w
  have hrun : Allowed (Window.step sock) (fun w c => Fresh w.stack c ∧ c.op.traffic = true) w calls :=
    (allowed_comap Window.stack (fun t c => Fresh t c ∧ c.op.traffic = true) fun _ _ => rfl).mpr h
  exact hrun.congr (I := Window.Inv sock)
    (fun w c hw hc hf => (hw.step hc.1 hc.2).2 hf) (fun w c hw hc => (hw.step hc.1 hc.2).1)
    ⟨hin, Or.inl hstate, Nat.le_refl _⟩

/-- A connection that sends three bytes, whose peer acknowledges one,
then all of them, and then the first again. -/
theorem forward_iff_inWindow_three_bytes :
    let blocks (l : List ℕ) : List Block := l.map fun a => ⟨a, noData⟩
    let s : Socket :=
      { Socket.zero with
        state := .established, localPort := 80, remotePort := 5000, sndUna := 7, sndNxt := 7 }
    let t : Stack := { tcpInit (fun _ => s) none with sockets := [1] }
    let ack (x : UInt32) : Call := ⟨.rx ⟨5000, 80, 0, x, 5, tcpAck, 0, 0, 0⟩ noData 0, []⟩
    let calls : List Call := [⟨.send 1 ⟨9, noData⟩ 3, blocks [4]⟩, ack 8, ack 10, ack 8]
    let w : Window := ⟨t, ((t.heap 1).sndNxt - (t.heap 1).sndUna).toNat⟩
    Allowed (Window.step 1) (fun w c => Forward 1 w (w.step 1 c)) w calls ↔
      Allowed (Window.step 1) (InWindow 1) w calls :=
  forward_iff_inWindow (by decide) rfl (by decide +kernel)

/-- The acknowledgement of three bytes, and then an old one of the first:
`snd_una` goes back. -/
theorem old_ack_moves_back :
    let blocks (l : List ℕ) : List Block := l.map fun a => ⟨a, noData⟩
    let s : Socket :=
      { Socket.zero with
        state := .established, localPort := 80, remotePort := 5000, sndUna := 7, sndNxt := 7 }
    let t : Stack := { tcpInit (fun _ => s) none with sockets := [1] }
    let ack (x : UInt32) : Call := ⟨.rx ⟨5000, 80, 0, x, 5, tcpAck, 0, 0, 0⟩ noData 0, []⟩
    let calls : List Call := [⟨.send 1 ⟨9, noData⟩ 3, blocks [4]⟩, ack 8, ack 10, ack 8]
    let w : Window := ⟨t, ((t.heap 1).sndNxt - (t.heap 1).sndUna).toNat⟩
    Allowed Stack.step (fun t c => Fresh t c ∧ c.op.traffic = true) t calls ∧
      ¬ Allowed (Window.step 1) (fun w c => Forward 1 w (w.step 1 c)) w calls ∧
      ((runFrom (Window.step 1) w (calls.take 3)).stack.heap 1).sndUna = 10 ∧
      ((runFrom (Window.step 1) w calls).stack.heap 1).sndUna = 8 := by
  decide +kernel

end Tcp

end Kos
