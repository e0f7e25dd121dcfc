import Kos.Common.Run
import Kos.Tcp.Effects
/-!
# Tcp — where a local address comes from

A socket gets its local address from `tcp_bind`, from the device when it
connects without one, or from the listening socket that accepted it.
Nothing else writes to it, so over a whole run every socket has one of
the addresses that were bound, the one of the device, or none at all.
-/

namespace Kos

namespace Tcp

variable {t t' : Stack} {sock : ℕ} {ok : UInt32 → Prop}

/-- The local address and port of a socket. -/
def Socket.address (s : Socket) : UInt32 × UInt16 := (s.localAddr, s.localPort)

/-- **A socket without an address, or with one of those that are `ok`.** -/
def Socket.From (ok : UInt32 → Prop) (s : Socket) : Prop :=
  (s.localAddr = 0 ∧ s.localPort = 0) ∨ ok s.localAddr

theorem Socket.From.congr {s s' : Socket} (h : s.From ok) (heq : s'.address = s.address) :
    s'.From ok := by
  have haddr : s'.localAddr = s.localAddr := congrArg Prod.fst heq
  have hport : s'.localPort = s.localPort := congrArg Prod.snd heq
  rw [Socket.From, haddr, hport]
  exact h

/-- The sockets of the list have addresses that are `ok`, and so has the
device, which is registered. -/
structure Stack.From (ok : UInt32 → Prop) (t : Stack) : Prop where
  sockets : ∀ x ∈ t.sockets, (t.heap x).From ok
  device : ∃ ip, t.device = some ip ∧ ok ip

/-- `tcp_bind` is called with addresses that are `ok`. -/
def Op.BindsOk (ok : UInt32 → Prop) : Op → Prop
  | .bind _ addr _ => ok addr
  | _ => True

/-! ## What keeps the addresses -/

/-- No address changes, no socket is linked and the device stays. -/
structure Keeps (t t' : Stack) : Prop where
  address : ∀ x, (t'.heap x).address = (t.heap x).address
  sockets : ∀ x ∈ t'.sockets, x ∈ t.sockets
  device : t'.device = t.device

theorem Keeps.refl (t : Stack) : Keeps t t := ⟨fun _ => rfl, fun _ h => h, rfl⟩

theorem Keeps.from (h : Keeps t t') (hfrom : t.From ok) : t'.From ok :=
  ⟨fun x hx => (hfrom.sockets x (h.sockets x hx)).congr (h.address x),
    by rw [h.device]; exact hfrom.device⟩

theorem Keeps.kmalloc (h : Keeps t t') : Keeps t (kmalloc t').2 := by
  unfold Tcp.kmalloc
  split
  · exact h
  · exact ⟨h.address, h.sockets, h.device⟩

/-- A write to a socket that leaves its address. -/
theorem Keeps.modify (h : Keeps t t') {f : Socket → Socket}
    (hf : ∀ s, (f s).address = s.address) : Keeps t (t'.modify sock f) := by
  refine ⟨fun x => ?_, h.sockets, h.device⟩
  rw [modify_heap]
  by_cases hx : x = sock
  · rw [hx, Function.update_self, hf]
    exact h.address sock
  · rw [Function.update_of_ne hx]
    exact h.address x

theorem Keeps.tcpTx (h : Keeps t t') (flags : UInt8) (data : ℕ → UInt8) (len : UInt16) :
    Keeps t (tcpTx t' sock flags data len) := by
  simp only [Tcp.tcpTx]
  split
  · exact h
  · split
    · exact h.kmalloc
    · refine Keeps.modify ?_ fun _ => rfl
      exact ⟨h.kmalloc.address, h.kmalloc.sockets, h.kmalloc.device⟩

theorem keeps_rxOnAck (t : Stack) (sock : ℕ) (tcp : TcpHeader) (state : TcpState) :
    Keeps t (rxOnAck t sock tcp state) := by
  unfold rxOnAck
  split
  · exact (Keeps.refl t).modify fun _ => rfl
  · exact Keeps.refl t

theorem keeps_rxSynSent (t : Stack) (sock : ℕ) (tcp : TcpHeader) :
    Keeps t (rxSynSent t sock tcp) := by
  unfold rxSynSent
  split
  · split
    · exact ((Keeps.refl t).modify fun _ => by rfl).tcpTx _ _ _
    · exact Keeps.refl t
  · exact Keeps.refl t

theorem address_store (s : Socket) (payload : ℕ → UInt8) (len : UInt16) :
    (s.store payload len).address = s.address := by
  rw [Socket.address, (store_local s payload len).1, (store_fields s payload len).1,
    Socket.address]

theorem keeps_rxEstablished (t : Stack) (sock : ℕ) (tcp : TcpHeader) (payload : ℕ → UInt8)
    (len : UInt16) : Keeps t (rxEstablished t sock tcp payload len) := by
  have hack : Keeps t (if hasFlag tcp.flags tcpAck then
      t.modify sock fun s => { s with sndUna := tcp.ack } else t) := by
    split
    · exact (Keeps.refl t).modify fun _ => rfl
    · exact Keeps.refl t
  unfold rxEstablished
  generalize (if hasFlag tcp.flags tcpAck then
    t.modify sock fun s => { s with sndUna := tcp.ack } else t) = t₁ at hack ⊢
  have hdata : Keeps t (if 0 < len then
      if tcp.seq = (t₁.heap sock).rcvNxt then
        Tcp.tcpTx (t₁.modify sock fun s => s.store payload len) sock tcpAck noData 0
      else t₁
    else t₁) := by
    split
    · split
      · exact (hack.modify fun s => address_store s payload len).tcpTx _ _ _
      · exact hack
    · exact hack
  simp only
  generalize (if 0 < len then _ else t₁) = t₂ at hdata ⊢
  split
  · exact (hdata.modify fun _ => by rfl).tcpTx _ _ _
  · exact hdata

theorem keeps_tcpListen (t : Stack) (sock : ℕ) : Keeps t (tcpListen t sock).2 := by
  unfold tcpListen
  split
  · exact Keeps.refl t
  · split
    · exact Keeps.refl t
    · dsimp only
      exact (Keeps.refl t).modify fun _ => rfl

theorem keeps_tcpSend (t : Stack) (sock : ℕ) (data : Block) (len : UInt16) :
    Keeps t (tcpSend t sock data len).2 := by
  unfold tcpSend
  split
  · exact Keeps.refl t
  · split
    · exact Keeps.refl t
    · exact (Keeps.refl t).tcpTx _ _ _

theorem keeps_tcpRecv (t : Stack) (sock : ℕ) (len : UInt16) : Keeps t (tcpRecv t sock len).2 := by
  unfold tcpRecv
  split
  · exact Keeps.refl t
  · split
    · exact Keeps.refl t
    · split
      · exact Keeps.refl t
      · dsimp only
        exact (Keeps.refl t).modify fun _ => rfl

theorem keeps_tcpClose (t : Stack) (sock : ℕ) : Keeps t (tcpClose t sock) := by
  unfold tcpClose
  split
  · exact Keeps.refl t
  · split
    · exact ((Keeps.refl t).modify fun _ => by rfl).tcpTx _ _ _
    · exact ((Keeps.refl t).modify fun _ => by rfl).tcpTx _ _ _
    · exact (Keeps.refl t).modify fun _ => rfl
    · exact (Keeps.refl t).modify fun _ => rfl
    · exact (Keeps.refl t).modify fun _ => rfl
    · exact Keeps.refl t

theorem Socket.address_tick (s : Socket) : s.tick.address = s.address := by
  unfold Socket.tick
  split
  · split <;> rfl
  · rfl

theorem keeps_tcpTimerTick (t : Stack) : Keeps t (tcpTimerTick t) := by
  have hloop : ∀ (l : List ℕ) (t' : Stack), Keeps t t' →
      Keeps t (l.foldl (fun t sock => t.modify sock Socket.tick) t') := by
    intro l
    induction l with
    | nil => exact fun _ h => h
    | cons x l ih => exact fun t' h => ih _ (h.modify Socket.address_tick)
  exact hloop t.sockets t (Keeps.refl t)

/-! ## What writes an address -/

/-- A new socket has none. -/
theorem Stack.From.tcpSocket (h : t.From ok) : (tcpSocket t).2.From ok := by
  simp only [Tcp.tcpSocket]
  split
  · exact (Keeps.refl t).kmalloc.from h
  · have hkeep := (Keeps.refl t).kmalloc.kmalloc.kmalloc
    refine ⟨fun x hx => ?_, (hkeep.from h).device⟩
    by_cases hnew : x = (Tcp.kmalloc t).1.addr
    · simp only [hnew, Function.update_self]
      exact Or.inl ⟨rfl, rfl⟩
    · simp only [Function.update_of_ne hnew]
      rcases List.mem_cons.mp hx with hx | hx
      · exact absurd hx hnew
      · exact (hkeep.from h).sockets x hx

/-- A socket is written to: its local address is `addr` now, and the
others keep theirs. -/
structure Assigns (t : Stack) (sock : ℕ) (addr : UInt32) (t' : Stack) : Prop where
  other : ∀ x, x ≠ sock → (t'.heap x).address = (t.heap x).address
  self : (t'.heap sock).localAddr = addr
  sockets : t'.sockets = t.sockets
  device : t'.device = t.device

theorem Assigns.modify {a b : UInt32} (h : Assigns t sock a t') {f : Socket → Socket}
    (hf : (f (t'.heap sock)).localAddr = b) : Assigns t sock b (t'.modify sock f) := by
  refine ⟨fun x hx => ?_, ?_, h.sockets, h.device⟩
  · rw [modify_heap, Function.update_of_ne hx]
    exact h.other x hx
  · rw [modify_heap, Function.update_self]
    exact hf

theorem Assigns.from {a : UInt32} (h : Assigns t sock a t') (hfrom : t.From ok)
    (ha : sock ∈ t.sockets → ok a) : t'.From ok := by
  refine ⟨fun x hx => ?_, by rw [h.device]; exact hfrom.device⟩
  rw [h.sockets] at hx
  by_cases hself : x = sock
  · rw [hself] at hx ⊢
    exact Or.inr (by rw [h.self]; exact ha hx)
  · exact (hfrom.sockets x hx).congr (h.other x hself)

theorem Stack.From.tcpBind (h : t.From ok) {addr : UInt32} (port : UInt16) (haddr : ok addr) :
    (tcpBind t sock addr port).2.From ok := by
  simp only [Tcp.tcpBind]
  split
  · exact h
  · have hstart : Assigns t sock (t.heap sock).localAddr t := ⟨fun _ _ => rfl, rfl, rfl, rfl⟩
    have hbound : Assigns t sock addr
        (t.modify sock fun s => { s with localAddr := addr, localPort := port }) :=
      hstart.modify rfl
    exact hbound.from h fun _ => haddr

/-- The device fills in an address that is missing. -/
theorem Stack.From.tcpConnect (h : t.From ok) (addr : UInt32) (port : UInt16) :
    (tcpConnect t sock addr port).2.From ok := by
  obtain ⟨ip, hdevice, hip⟩ := h.device
  by_cases hopen : sock = 0 ∨ (t.heap sock).state ≠ .closed
  · rw [tcpConnect_refused addr port hopen]
    exact h
  · rw [not_or, not_not] at hopen
    have hassigns : Assigns t sock (if (t.heap sock).localAddr = 0 then t.device.getD 0
        else (t.heap sock).localAddr) (connecting t sock addr port) := by
      obtain ⟨hsockets, -, hdev, -⟩ := connecting_others t sock addr port
      exact ⟨fun x hx => by rw [connecting_of_ne hx], by rw [connecting_self]; rfl, hsockets, hdev⟩
    rw [tcpConnect_closed addr port hopen.1 hopen.2]
    refine (Keeps.tcpTx (Keeps.refl _) _ _ _).from (hassigns.from h fun hin => ?_)
    split
    · rw [hdevice]
      exact hip
    · rename_i hnone
      rcases h.sockets sock hin with hzero | hok
      · exact absurd hzero.1 hnone
      · exact hok

/-- A new connection has the address of the socket that accepted it. -/
theorem Stack.From.rxListen (h : t.From ok) (hin : sock ∈ t.sockets) (tcp : TcpHeader) :
    (rxListen t sock tcp).From ok := by
  unfold Tcp.rxListen
  split
  · simp only
    split
    · exact h.tcpSocket
    · refine (Keeps.tcpTx (Keeps.refl _) _ _ _).from ?_
      have hlisted : sock ∈ (Tcp.tcpSocket t).2.sockets := by
        rcases tcpSocket_cases t with ⟨-, heq⟩ | ⟨-, -, hsockets, -⟩
        · rw [heq, kmalloc_sockets]
          exact hin
        · rw [hsockets]
          exact List.mem_cons_of_mem _ hin
      have hsock : ((Tcp.tcpSocket t).2.heap sock).From ok := h.tcpSocket.sockets sock hlisted
      refine ⟨fun x hx => ?_, h.tcpSocket.device⟩
      rw [modify_heap]
      by_cases hnew : x = (Tcp.tcpSocket t).1
      · rw [hnew, Function.update_self]
        exact hsock
      · rw [Function.update_of_ne hnew]
        exact h.tcpSocket.sockets x hx
  · exact h

theorem Stack.From.tcpRx (h : t.From ok) (tcp : TcpHeader) (payload : ℕ → UInt8) (len : UInt16) :
    (tcpRx t tcp payload len).From ok := by
  unfold Tcp.tcpRx
  split
  · exact h
  · rename_i sock hfound
    have hin : sock ∈ t.sockets := List.mem_of_find?_eq_some hfound
    split
    · exact h.rxListen hin tcp
    · exact (keeps_rxSynSent t sock tcp).from h
    · exact (keeps_rxOnAck t sock tcp _).from h
    · exact (keeps_rxEstablished t sock tcp payload len).from h
    · exact (keeps_rxOnAck t sock tcp _).from h
    · exact (keeps_rxOnAck t sock tcp _).from h
    · exact h

/-! ## Runs -/

/-- **A call keeps the addresses ok**, if it binds none that is not. -/
theorem Stack.From.step (h : t.From ok) {c : Call} (hbind : c.op.BindsOk ok) :
    (t.step c).From ok := by
  have hgiven : (t.given c.mem).From ok := ⟨h.sockets, h.device⟩
  unfold Stack.step
  cases hop : c.op with
  | socket => exact hgiven.tcpSocket
  | bind x addr port =>
    rw [hop] at hbind
    exact hgiven.tcpBind port hbind
  | listen x => exact (keeps_tcpListen _ x).from hgiven
  | connect x addr port => exact hgiven.tcpConnect addr port
  | send x data len => exact (keeps_tcpSend _ x data len).from hgiven
  | recv x len => exact (keeps_tcpRecv _ x len).from hgiven
  | close x => exact (keeps_tcpClose _ x).from hgiven
  | timerTick => exact (keeps_tcpTimerTick _).from hgiven
  | cleanup =>
    have hkeep : Keeps (t.given c.mem) (tcpCleanup (t.given c.mem)) :=
      ⟨fun _ => rfl, fun x hx => List.mem_of_mem_filter hx, rfl⟩
    exact hkeep.from hgiven
  | rx tcp payload len => exact hgiven.tcpRx tcp payload len

/-- **Over a whole run** every socket of the list has an address that is
ok, or none, if the device has one and all that are bound are. -/
theorem from_run {heap : ℕ → Socket} {ip : UInt32} {calls : List Call} (hip : ok ip)
    (hbind : ∀ c ∈ calls, c.op.BindsOk ok) :
    (runFrom Stack.step (tcpInit heap (some ip)) calls).From ok := by
  have hstart : (tcpInit heap (some ip)).From ok :=
    ⟨fun x hx => absurd hx List.not_mem_nil, ip, rfl, hip⟩
  exact (allowed_of_forall Stack.step _ hbind).invariant (fun t c h hc => h.step hc) hstart

end Tcp

end Kos
