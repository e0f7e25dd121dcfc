import Kos.Common.Simulation
import Kos.Net.DataOffset
import Kos.Net.Ping
import Kos.Tcp.Quiescence
/-!
# Net — hosts that exchange frames

The segments that `tcp_tx` hands to `ip_send` leave a host as frames, and
a frame that comes in goes up through `network_rx` and `ip_rx` to
`tcp_rx`. Between the two, a frame is the segment it was made from: no
byte of the headers below is left in what `tcp_rx` does. So what hosts do
that exchange frames is what their TCP does with segments on the way,
some of which are lost before they are frames.
-/

namespace Kos

namespace Net

variable {s : Sender} {h : Host} {p : Tcp.Packet} {ps ps' : List Tcp.Packet} {t : Tcp.Stack}
  {tcp tcp' : Tcp.TcpHeader} {payload payload' : ℕ → UInt8} {len : UInt16} {mem : ℕ → UInt8}
  {frame : List UInt8 × UInt16}

/-! ## What is read of a segment -/

/-- The fields of a header that `tcp_rx` reads. -/
structure SameFields (tcp tcp' : Tcp.TcpHeader) : Prop where
  srcPort : tcp.srcPort = tcp'.srcPort
  dstPort : tcp.dstPort = tcp'.dstPort
  seq : tcp.seq = tcp'.seq
  ack : tcp.ack = tcp'.ack
  flags : tcp.flags = tcp'.flags

theorem store_congr (s : Tcp.Socket) (hpayload : ∀ i < len.toNat, payload i = payload' i) :
    s.store payload len = s.store payload' len := by
  have hbytes : (s.store payload len).rxBuf.bytes = (s.store payload' len).rxBuf.bytes := by
    rw [Tcp.store_bytes, Tcp.store_bytes]
    refine Ring.push_congr fun i hi => hpayload i (hi.trans_le ?_)
    rw [Tcp.toNat_clamp]
    exact min_le_left ..
  have hstore : ∀ payload, s.store payload len = s.setRx
      { s.rxBuf with bytes := (s.store payload len).rxBuf.bytes }
      (s.store payload len).rxTail (s.store payload len).rcvNxt := fun payload => rfl
  rw [hstore payload, hstore payload', hbytes, Tcp.store_rxTail, Tcp.store_rxTail,
    Tcp.store_rcvNxt, Tcp.store_rcvNxt]

/-- **`tcp_rx` reads five fields of the header and `len` bytes.** -/
theorem tcpRx_congr (t : Tcp.Stack) (hfields : SameFields tcp tcp')
    (hpayload : ∀ i < len.toNat, payload i = payload' i) :
    Tcp.tcpRx t tcp payload len = Tcp.tcpRx t tcp' payload' len := by
  obtain ⟨hsrc, hdst, hseq, hack, hflags⟩ := hfields
  have hstore : ∀ s : Tcp.Socket, s.store payload len = s.store payload' len :=
    fun s => store_congr s hpayload
  simp only [Tcp.tcpRx, Tcp.rxListen, Tcp.rxSynSent, Tcp.rxOnAck, Tcp.rxEstablished,
    Tcp.Socket.accept, hsrc, hdst, hseq, hack, hflags, hstore]

/-- `tcp_rx` on a frame is `tcp_rx` on the segment in it. -/
theorem tcpRx_headerAt (h : Host) (tcp payload : ℕ) (len : UInt16) :
    (tcpRx h tcp payload len).tcp =
      Tcp.tcpRx h.tcp (headerAt h.mem tcp) (fun i => h.mem (payload + i)) len := by
  cases hfound : h.tcp.lookup (field16 h.mem (tcp + 2)) (field16 h.mem tcp) with
  | some sock => exact tcpRx_found hfound
  | none =>
    rw [Tcp.tcpRx_none hfound]
    unfold tcpRx
    simp only [touch_mem]
    split
    · rfl
    · rename_i hsome
      exact absurd (hfound.symm.trans hsome) (Option.some_ne_none _).symm

/-- The header of a segment is read back. -/
theorem sameFields_headerAt {pos : ℕ} (hread : Ring.read mem pos 20 = tcp.bytes) :
    SameFields (headerAt mem pos) tcp := by
  have hbyte : ∀ i b, i < 20 → tcp.bytes[i]? = some b → mem (pos + i) = b := by
    intro i b hi hb
    rw [← hread, Ring.getElem?_read hi] at hb
    exact Option.some.inj hb
  have hfirst := hbyte 0 _ (by decide) rfl
  rw [Nat.add_zero] at hfirst
  refine ⟨?_, ?_, ?_, ?_, hbyte 13 _ (by decide) rfl⟩
  · rw [headerAt, field16, hfirst, hbyte 1 _ (by decide) rfl]
    exact word16_split tcp.srcPort
  · simp only [headerAt, field16]
    rw [hbyte 2 _ (by decide) rfl, Nat.add_assoc, hbyte 3 _ (by decide) rfl]
    exact word16_split tcp.dstPort
  · simp only [headerAt, field32, field16, Nat.add_assoc]
    rw [hbyte 4 _ (by decide) rfl, hbyte 5 _ (by decide) rfl, hbyte 6 _ (by decide) rfl,
      hbyte 7 _ (by decide) rfl]
    exact word32_split tcp.seq
  · simp only [headerAt, field32, field16, Nat.add_assoc]
    rw [hbyte 8 _ (by decide) rfl, hbyte 9 _ (by decide) rfl, hbyte 10 _ (by decide) rfl,
      hbyte 11 _ (by decide) rfl]
    exact word32_split tcp.ack

/-! ## A frame carries a segment -/

/-- A segment with as many bytes as its length says, which fit a frame. -/
structure Formed (p : Tcp.Packet) : Prop where
  total : p.total.toNat = 20 + p.data.length
  fits : 54 + p.data.length ≤ 65535

/-- **A frame carries a segment**: it is addressed to where the segment
goes, and to the TCP of that host it is the arrival of the segment. -/
structure Carries (frame : List UInt8 × UInt16) (p : Tcp.Packet) : Prop where
  address : field32 (fun i => frame.1.getD i 0) 30 = p.dst
  arrives : ∀ h : Host, h.localIp = p.dst → Ring.read h.mem 0 frame.1.length = frame.1 →
    (networkRx h frame.2).tcp = h.tcp.step (p.arrive h.tcp.mem)

/-- The segment of a packet that a handler is given. -/
theorem step_delivered {h h' : Host} (hformed : Formed p)
    (hdelivered : Delivered .tcp (fun i => (packetBytes p).getD i 0) p.total h h') :
    (tcpRx h' 34 54 (p.total - 20)).tcp = h.tcp.step (p.arrive h.tcp.mem) := by
  have htotal := hformed.total
  have hfits := hformed.fits
  have hlen : (p.total - 20).toNat = p.data.length :=
    hdelivered.length.trans (by rw [htotal]; exact Nat.add_sub_cancel_left ..)
  have hsame : p.total - 20 = UInt16.ofNat p.data.length := by
    rw [← UInt16.toNat_inj, hlen, UInt16.toNat_ofNat', Nat.mod_eq_of_lt (by omega)]
  -- what was sent, split behind the header
  obtain ⟨hfront, hback⟩ := Ring.read_append.1 (Ring.read_getD (packetBytes p) 0)
  have hheader : Ring.read h'.mem 34 20 = p.tcp.bytes := hdelivered.header.trans hfront
  have hdata : Ring.read h'.mem 54 p.data.length = p.data := by
    rw [← hlen]
    refine hdelivered.payload.trans ?_
    rw [show (p.total - Proto.tcp.headerSize).toNat = p.data.length from hlen]
    exact hback
  have hpayload : ∀ i < (p.total - 20).toNat, h'.mem (54 + i) = p.data.getD i 0 := by
    intro i hi
    rw [hlen] at hi
    have hat := congrArg (fun bytes : List UInt8 => bytes.getD i 0) hdata
    simp only [List.getD_eq_getElem?_getD] at hat
    rwa [Ring.getElem?_read hi, Option.getD_some, ← List.getD_eq_getElem?_getD] at hat
  rw [tcpRx_headerAt, tcpRx_congr h'.tcp (sameFields_headerAt hheader) hpayload,
    hdelivered.state.2.2.1, hsame]
  rfl

/-- **`ip_send` makes a frame of a segment, or drops it.** -/
theorem sendPacket_carries (s : Sender) (hformed : Formed p) :
    (sendPacket s p).frames = s.frames ∨
      ∃ frame, (sendPacket s p).frames = s.frames ++ [frame] ∧ Carries frame p := by
  by_cases hready : s.Ready p.dst
  · have htotal := hformed.total
    have hfits := hformed.fits
    have hsize : Proto.tcp.headerSize ≤ p.total := by
      rw [UInt16.le_iff_toNat_le, htotal]
      exact Nat.le_add_right ..
    obtain ⟨eth, heth, hframes⟩ := @frames_ipSend s p.dst ipPTcp
      (fun i => (packetBytes p).getD i 0) p.total hready (by omega)
    obtain ⟨frame, n, hframes', harrives⟩ := networkRx_arrives (p := .tcp)
      (fun i => (packetBytes p).getD i 0) hready hsize (by omega)
    refine Or.inr ⟨(frame, n), hframes', ?_, fun h hours hread => ?_⟩
    · have hpair := List.singleton_inj.1 (List.append_cancel_left (hframes'.symm.trans hframes))
      obtain ⟨-, hheader, -⟩ := read_frame heth (Ring.read_getD _ 0)
      rw [hpair]
      exact (IpHeader.fields hheader).2.2.2.2.2
    · obtain ⟨h', hdelivered, -, hcall⟩ := harrives h hours hread
      rw [← networkRxTo_kernel, hcall]
      exact step_delivered hformed hdelivered
  · refine Or.inl ?_
    by_contra hsent
    exact hready (ready_of_frames_ne hsent)

/-- **The frames of several segments**, some of which are dropped. -/
theorem foldl_sendPacket (s : Sender) (hformed : ∀ p ∈ ps, Formed p) :
    ∃ frames ps', (ps.foldl sendPacket s).frames = s.frames ++ frames ∧ ps'.Sublist ps ∧
      List.Forall₂ Carries frames ps' := by
  induction ps generalizing s with
  | nil => exact ⟨[], [], (List.append_nil _).symm, .slnil, .nil⟩
  | cons p ps ih =>
    rw [List.forall_mem_cons] at hformed
    obtain ⟨frames, ps', hframes, hsub, hcarries⟩ := ih (sendPacket s p) hformed.2
    rw [List.foldl_cons]
    rcases sendPacket_carries s hformed.1 with hnone | ⟨frame, hone, hcarry⟩
    · exact ⟨frames, ps', hframes.trans (by rw [hnone]), hsub.cons p, hcarries⟩
    · refine ⟨frame :: frames, p :: ps', hframes.trans ?_, hsub.cons_cons p, .cons hcarry hcarries⟩
      rw [hone, List.append_assoc]
      rfl

/-! ## The hosts -/

/-- A host: its TCP, and what `ip_send` works on. -/
structure Node where
  tcp : Tcp.Stack
  ip : Sender

/-- The TCP of a host has moved: what it sent goes down, with the answers
of the allocator to `ip_send`. -/
def Node.move (v : Node) (t : Tcp.Stack) (answers : List ℕ) : Node where
  tcp := t
  ip := (Tcp.sentSince v.tcp t).foldl sendPacket { v.ip with mem := answers }

/-- A frame comes in: it is in memory, behind it what was there before. -/
def Node.receive (v : Node) (frame : List UInt8 × UInt16) (old : ℕ → UInt8)
    (mem : List Tcp.Block) : Tcp.Stack :=
  (networkRx (Host.start (writeList old 0 frame.1) v.ip.localIp v.ip.arp.entries (v.tcp.given mem))
    frame.2).tcp

/-- **Hosts, and the frames on their way** between them. -/
structure Lan (ι : Type*) where
  node : ι → Node
  flight : List (List UInt8 × UInt16)

/-- What happens: a frame arrives at a host, one is lost, a host makes a
call. -/
inductive Lan.Event (ι : Type*)
  | arrive (host : ι) (k : ℕ) (old : ℕ → UInt8) (mem : List Tcp.Block) (answers : List ℕ)
  | lose (k : ℕ)
  | call (host : ι) (c : Tcp.Call) (answers : List ℕ)

variable {ι : Type*} {w : Lan ι} {v : Tcp.Wire ι} {e : Lan.Event ι} {calls : Tcp.Op → Bool}

/-- The TCP of a host moves: its new frames are on their way. -/
def Lan.move [DecidableEq ι] (w : Lan ι) (i : ι) (t : Tcp.Stack) (answers : List ℕ) : Lan ι where
  node := Function.update w.node i ((w.node i).move t answers)
  flight := w.flight ++
    ((w.node i).move t answers).ip.frames.drop (w.node i).ip.frames.length

/-- One event. -/
def Lan.step [DecidableEq ι] (w : Lan ι) : Lan.Event ι → Lan ι
  | .arrive i k old mem answers =>
    match w.flight[k]? with
    | none => w
    | some frame =>
      Lan.move { w with flight := w.flight.eraseIdx k } i ((w.node i).receive frame old mem) answers
  | .lose k => { w with flight := w.flight.eraseIdx k }
  | .call i c answers => w.move i ((w.node i).tcp.step c) answers

/-- **What may happen**: a frame arrives where it is addressed to or is
lost, and hosts make calls of some kinds, the segments of which fit a
frame. -/
def Lan.Event.Ok (calls : Tcp.Op → Bool) (w : Lan ι) : Lan.Event ι → Prop
  | .arrive i k _ mem _ => k < w.flight.length ∧ (∀ frame ∈ w.flight[k]?,
      field32 (fun j => frame.1.getD j 0) 30 = (w.node i).ip.localIp) ∧
      ∀ block ∈ mem, block.addr ∉ (w.node i).tcp.sockets
  | .lose k => k < w.flight.length
  | .call i c _ => Tcp.Fresh (w.node i).tcp c ∧ calls c.op = true ∧
      ∀ p ∈ Tcp.sentSince (w.node i).tcp ((w.node i).tcp.step c), 54 + p.data.length ≤ 65535

instance Lan.Event.Ok.decidable (calls : Tcp.Op → Bool) (w : Lan ι) :
    ∀ e : Lan.Event ι, Decidable (e.Ok calls w)
  | .arrive i k _ mem _ => inferInstanceAs (Decidable (k < w.flight.length ∧
      (∀ frame ∈ w.flight[k]?,
        field32 (fun j => frame.1.getD j 0) 30 = (w.node i).ip.localIp) ∧
        ∀ block ∈ mem, block.addr ∉ (w.node i).tcp.sockets))
  | .lose k => inferInstanceAs (Decidable (k < w.flight.length))
  | .call i c _ => inferInstanceAs (Decidable (Tcp.Fresh (w.node i).tcp c ∧ calls c.op = true ∧
      ∀ p ∈ Tcp.sentSince (w.node i).tcp ((w.node i).tcp.step c), 54 + p.data.length ≤ 65535))

/-- The events that take a frame out of the network. -/
def Lan.Event.takes : Lan.Event ι → Bool
  | .arrive _ _ _ _ _ => true
  | .lose _ => true
  | .call _ _ _ => false

/-- **What the hosts do as far as TCP goes**: their stacks are these, and
the frames on their way carry these segments. -/
structure Lan.Shows (w : Lan ι) (v : Tcp.Wire ι) : Prop where
  stack : ∀ i, (w.node i).tcp = v.stack i
  flight : List.Forall₂ Carries w.flight v.flight

/-! ## Frames as segments -/

theorem forall₂_eraseIdx {α β : Type*} {R : α → β → Prop} {l : List α} {l' : List β} (k : ℕ)
    (h : List.Forall₂ R l l') : List.Forall₂ R (l.eraseIdx k) (l'.eraseIdx k) := by
  rw [List.eraseIdx_eq_take_drop_succ, List.eraseIdx_eq_take_drop_succ]
  exact List.rel_append (List.forall₂_take k h) (List.forall₂_drop (k + 1) h)

theorem forall₂_getElem? {α β : Type*} {R : α → β → Prop} {l : List α} {l' : List β} {k : ℕ} {a : α}
    (h : List.Forall₂ R l l') (hk : l[k]? = some a) : ∃ b, l'[k]? = some b ∧ R a b := by
  induction h generalizing k with
  | nil => exact absurd hk (by simp)
  | cons hab _ ih =>
    cases k with
    | zero =>
      obtain rfl := Option.some.inj hk
      exact ⟨_, rfl, hab⟩
    | succ k => exact ih hk

/-- The segments a call sends are formed, if they fit a frame. -/
theorem formed_step (t : Tcp.Stack) (c : Tcp.Call)
    (hfits : ∀ p ∈ Tcp.sentSince t (t.step c), 54 + p.data.length ≤ 65535) :
    ∀ p ∈ Tcp.sentSince t (t.step c), Formed p := by
  intro p hp
  have hfit := hfits p hp
  refine ⟨?_, hfit⟩
  rw [Tcp.sentSince, (Tcp.accounts_step t c).sent, List.drop_left, List.mem_flatMap] at hp
  obtain ⟨x, -, hp⟩ := hp
  rw [Tcp.TxCall.packets, Tcp.sentSince, Tcp.TxCall.run] at hp
  rcases Tcp.tcpTx_packet x.stack x.sock x.flags x.data x.len with hnone | hone
  · rw [hnone, List.drop_length] at hp
    exact absurd hp List.not_mem_nil
  · rw [hone, List.drop_left] at hp
    obtain rfl := List.mem_singleton.1 hp
    rw [Ring.length_read] at hfit ⊢
    rw [UInt16.toNat_add]
    change (20 + x.len.toNat) % 2 ^ 16 = _
    omega

/-- Segments that become no frames are lost. -/
theorem lose_sublist [DecidableEq ι] (calls : Tcp.Op → Bool) (hsub : ps'.Sublist ps)
    (v : Tcp.Wire ι) (front : List Tcp.Packet) (hflight : v.flight = front ++ ps) :
    ∃ es, Allowed Tcp.Wire.step (fun v e => e.Ok calls v) v es ∧
      runFrom Tcp.Wire.step v es = { v with flight := front ++ ps' } := by
  induction hsub generalizing v front with
  | slnil => exact ⟨[], trivial, by rw [runFrom_nil, ← hflight]⟩
  | @cons ps' ps p hsub ih =>
    have hlen : front.length < v.flight.length := by
      rw [hflight, List.length_append, List.length_cons]
      omega
    have herase : v.flight.eraseIdx front.length = front ++ ps := by
      rw [hflight, List.eraseIdx_append_of_length_le le_rfl, Nat.sub_self]
      rfl
    obtain ⟨es, hes, hrun⟩ := ih { v with flight := v.flight.eraseIdx front.length } front herase
    exact ⟨.lose front.length :: es, ⟨hlen, hes⟩, hrun⟩
  | @cons_cons ps' ps p hsub ih =>
    obtain ⟨es, hes, hrun⟩ := ih v (front ++ [p]) (by rw [hflight, List.append_assoc]; rfl)
    exact ⟨es, hes, by rw [hrun, List.append_assoc]; rfl⟩

/-- **A move of a host**: what it sends is on its way, as segments and as
frames, but for what is dropped. -/
theorem Lan.Shows.move [DecidableEq ι] (h : w.Shows v) (i : ι) (c : Tcp.Call) (answers : List ℕ)
    (hformed : ∀ p ∈ Tcp.sentSince (w.node i).tcp ((w.node i).tcp.step c), Formed p) :
    ∃ es, Matches Tcp.Wire.step (fun v e => e.Ok calls v) Lan.Shows Tcp.Wire.Event.takes
      (w.move i ((w.node i).tcp.step c) answers) 0 (v.call i c) es := by
  obtain ⟨frames, ps', hframes, hsub, hcarries⟩ :=
    foldl_sendPacket { (w.node i).ip with mem := answers } hformed
  rw [h.stack i] at hsub
  obtain ⟨es, hes, hrun⟩ := lose_sublist calls hsub (v.call i c) v.flight rfl
  refine ⟨es, hes, ?_, Nat.zero_le _⟩
  rw [hrun]
  refine ⟨fun j => ?_, ?_⟩
  · by_cases hj : j = i
    · subst hj
      simp only [Lan.move, Tcp.Wire.call, Function.update_self, Node.move, h.stack]
    · simp only [Lan.move, Tcp.Wire.call, Function.update_of_ne hj, h.stack]
  · have hnew : ((w.node i).move ((w.node i).tcp.step c) answers).ip.frames.drop
        (w.node i).ip.frames.length = frames := by
      rw [Node.move, hframes, List.drop_left]
    rw [Lan.move, hnew]
    exact List.rel_append h.flight hcarries

/-- A frame that arrives is the arrival of the segment it carries. -/
theorem receive_eq {v : Node} (h : Carries frame p) (hours : v.ip.localIp = p.dst) (old : ℕ → UInt8)
    (mem : List Tcp.Block) : v.receive frame old mem = v.tcp.step (p.arrive mem) :=
  h.arrives (Host.start (writeList old 0 frame.1) v.ip.localIp v.ip.arp.entries (v.tcp.given mem))
    hours (read_writeList old 0 frame.1)

/-- **Every event is one of segments**, and takes one where it takes a
frame. -/
theorem Lan.Shows.step [DecidableEq ι] (h : w.Shows v) (hok : e.Ok calls w) :
    ∃ es, Matches Tcp.Wire.step (fun v e => e.Ok calls v) Lan.Shows Tcp.Wire.Event.takes
      (w.step e) (bif e.takes then 1 else 0) v es := by
  cases e with
  | arrive i k old mem answers =>
    obtain ⟨hk, haddress, hfresh⟩ := hok
    have hframe : w.flight[k]? = some w.flight[k] := List.getElem?_eq_getElem hk
    obtain ⟨p, hp, hcarries⟩ := forall₂_getElem? h.flight hframe
    have hours : (w.node i).ip.localIp = p.dst :=
      (haddress _ hframe).symm.trans hcarries.address
    have hfresh' : Tcp.Fresh (w.node i).tcp (p.arrive mem) := hfresh
    -- what is sent in turn carries nothing
    have hformed : ∀ q ∈ Tcp.sentSince (w.node i).tcp ((w.node i).tcp.step (p.arrive mem)),
        Formed q := by
      refine formed_step _ _ fun q hq => ?_
      obtain ⟨ps, hsent, hreplies, -⟩ := Tcp.arrive_lowers hfresh' (Finset.mem_singleton_self _)
      rw [Tcp.sentSince, hsent, List.drop_left] at hq
      rw [(hreplies q hq).data]
      decide
    have hrest : ({ w with flight := w.flight.eraseIdx k } : Lan ι).Shows
        { v with flight := v.flight.eraseIdx k } := ⟨h.stack, forall₂_eraseIdx k h.flight⟩
    obtain ⟨es, hes⟩ := hrest.move i (p.arrive mem) answers hformed
    have hstep : w.step (.arrive i k old mem answers) = Lan.move
        { w with flight := w.flight.eraseIdx k } i ((w.node i).tcp.step (p.arrive mem))
        answers := by
      simp only [Lan.step, hframe, receive_eq hcarries hours]
    have hstep' : v.step (.arrive i k mem) =
        Tcp.Wire.call { v with flight := v.flight.eraseIdx k } i (p.arrive mem) := by
      simp only [Tcp.Wire.step, hp]
    rw [hstep]
    rw [← hstep'] at hes
    refine ⟨_, hes.cons ⟨h.flight.length_eq ▸ hk, fun q hq => ?_⟩⟩
    rw [← h.stack i]
    exact hfresh
  | lose k =>
    have hrest : (w.step (.lose k)).Shows (v.step (.lose k)) :=
      ⟨h.stack, forall₂_eraseIdx k h.flight⟩
    have hk : k < v.flight.length := h.flight.length_eq ▸ hok
    have hok' : Tcp.Wire.Event.Ok calls v (.lose k) := hk
    exact ⟨[.lose k], .cons hok' (.refl hrest)⟩
  | call i c answers =>
    obtain ⟨hfresh, hcalls, hfits⟩ := hok
    obtain ⟨es, hes⟩ := h.move i c answers (formed_step _ _ hfits)
    have hok' : Tcp.Wire.Event.Ok calls v (.call i c) := ⟨h.stack i ▸ hfresh, hcalls⟩
    exact ⟨.call i c :: es, .cons hok' hes⟩

/-- **Frames are segments.** Whatever hosts do that exchange frames, their
TCP does with segments on the way: its stacks end as they do in a run of
stacks that exchange segments, the frames that are left carry the
segments that are left, and no frame was taken but for a segment. -/
theorem frames_carry_segments [DecidableEq ι] (h : w.Shows v) {events : List (Lan.Event ι)}
    (hrun : Allowed Lan.step (fun w e => e.Ok calls w) w events) :
    ∃ segments, Allowed Tcp.Wire.step (fun v e => e.Ok calls v) v segments ∧
      (runFrom Lan.step w events).Shows (runFrom Tcp.Wire.step v segments) ∧
      events.countP Lan.Event.takes ≤ segments.countP Tcp.Wire.Event.takes := by
  obtain ⟨es, hes⟩ : ∃ es, Matches Tcp.Wire.step (fun v e => e.Ok calls v) Lan.Shows
      Tcp.Wire.Event.takes (runFrom Lan.step w events) (events.countP Lan.Event.takes) v es :=
    hrun.matches (fun _ _ _ hshows hok => hshows.step hok) h
  exact ⟨es, hes.allowed, hes.related, hes.counted⟩

/-- Three bytes to a neighbour, who acknowledges them. -/
theorem frames_carry_segments_three :
    let s (b : Bool) : Tcp.Socket := { Tcp.Socket.zero with
      state := .established
      remoteAddr := bif b then 0xC0A80001 else 0xC0A80002
      localPort := bif b then 80 else 5000
      remotePort := bif b then 5000 else 80
      sndNxt := bif b then 100 else 7
      rcvNxt := bif b then 7 else 100 }
    let t (b : Bool) : Tcp.Stack := { Tcp.tcpInit (fun _ => s b) none with sockets := [1] }
    let arp (b : Bool) := ArpTable.arpInit.arpAdd (bif b then 0xC0A80001 else 0xC0A80002) fun _ => 2
    let ip (b : Bool) : Sender := { Sender.start (arp b) (some ⟨fun _ => 1, true⟩) [] with
      localIp := bif b then 0xC0A80002 else 0xC0A80001 }
    let w : Lan Bool := ⟨fun b => ⟨t b, ip b⟩, []⟩
    let bytes : Tcp.Block := ⟨9, fun i => UInt8.ofNat (i + 1)⟩
    let events : List (Lan.Event Bool) := [.call false ⟨.send 1 bytes 3, [⟨4, Tcp.noData⟩]⟩ [5, 6],
      .arrive true 0 (fun _ => 0) [⟨4, Tcp.noData⟩] [5, 6], .arrive false 0 (fun _ => 0) [] []]
    let r := runFrom Lan.step w events
    (((r.node true).tcp.heap 1).queue = [1, 2, 3] ∧ ((r.node false).tcp.heap 1).sndUna = 10) ∧
      ∃ segments, Allowed Tcp.Wire.step (fun v e => e.Ok (fun _ => true) v) ⟨t, []⟩ segments ∧
        r.Shows (runFrom Tcp.Wire.step ⟨t, []⟩ segments) ∧
        events.countP Lan.Event.takes ≤ segments.countP Tcp.Wire.Event.takes := by
  intro s t arp ip w bytes events r
  have hshows : w.Shows ⟨t, []⟩ := ⟨fun _ => rfl, .nil⟩
  have hrun : Allowed Lan.step (fun w e => e.Ok (fun _ => true) w) w events := by decide +kernel
  exact ⟨⟨by decide +kernel, by decide +kernel⟩, frames_carry_segments hshows hrun⟩

end Net

end Kos
