import Kos.Tcp.Effects
/-!
# Tcp — opening a connection between two ends

Both ends run this code, and what one sends is delivered to the other in
order and unchanged. `tcp_connect` sets `snd_nxt` past the SYN before
the SYN is sent with it and `tcp_tx` moves it again, so the SYN carries
the number after `snd_una` and the answer acknowledges the one after
that. The client waits for `snd_una + 1` and never gets it.
-/

namespace Kos

namespace Tcp

/-- The packets sent between two states. -/
def sentSince (before after : Stack) : List Packet := after.sent.drop before.sent.length

/-- Deliver packets in order. -/
def deliver (t : Stack) (packets : List Packet) : Stack :=
  packets.foldl
    (fun t p => tcpRx t p.tcp (fun i => p.data.getD i 0) (UInt16.ofNat p.data.length)) t

/-- **The opening**: the client connects, and the SYN, the answer to it
and the answer to that are delivered. -/
def handshake (client server : Stack) (sock : ℕ) (addr : UInt32) (port : UInt16) : Stack × Stack :=
  let client₁ := (tcpConnect client sock addr port).2
  let server₁ := deliver server (sentSince client client₁)
  let client₂ := deliver client₁ (sentSince server server₁)
  let server₂ := deliver server₁ (sentSince client₁ client₂)
  (client₂, server₂)

/-- **The two ends agree**: both are established, and each expects what
the other sends next. -/
def Connected (sock : ℕ) (ends : Stack × Stack) : Prop :=
  (ends.1.heap sock).state = .established ∧ ∃ conn ∈ ends.2.sockets,
    (ends.2.heap conn).state = .established ∧
      (ends.1.heap sock).sndNxt = (ends.2.heap conn).rcvNxt ∧
      (ends.2.heap conn).sndNxt = (ends.1.heap sock).rcvNxt

variable {t client server : Stack} {sock : ℕ} {tcp : TcpHeader} {payload : ℕ → UInt8}
  {len : UInt16} {addr : UInt32} {port : UInt16}

@[simp] theorem sentSince_self (h : t.sent = client.sent) : sentSince t client = [] := by
  rw [sentSince, h, List.drop_length]

theorem sentSince_append {p : Packet} (h : client.sent = t.sent ++ [p]) :
    sentSince t client = [p] := by
  rw [sentSince, h, List.drop_left]

/-! ## The SYN -/

/-- **A SYN carries the number after `snd_una`**, if a socket connects. -/
theorem tcpConnect_sent (addr : UInt32) (port : UInt16)
    (h : (client.heap sock).state = .closed) :
    let r := (tcpConnect client sock addr port).2
    (r.sent = client.sent ∧ ((r.heap sock).state = .closed ∨ (r.heap sock).state = .synSent)) ∨
      ((r.heap sock).state = .synSent ∧ ∃ p, r.sent = client.sent ++ [p] ∧ p.data = [] ∧
        p.tcp.flags = tcpSyn ∧ p.tcp.seq = (r.heap sock).sndUna + 1) := by
  by_cases hsock : sock = 0
  · rw [tcpConnect_refused addr port (Or.inl hsock)]
    exact Or.inl ⟨rfl, Or.inl h⟩
  · rw [tcpConnect_closed addr port hsock h]
    have hself := connecting_self client sock addr port
    have hsent : _ = client.sent := (connecting_others client sock addr port).2.1
    generalize connecting client sock addr port = t at hself hsent
    obtain ⟨hstate, huna⟩ := tcpTx_self t sock tcpSyn noData 0
    rw [hself] at hstate huna
    rcases tcpTx_sent t sock tcpSyn noData 0 with h | ⟨p, h, htcp, hdata⟩
    · exact Or.inl ⟨h.trans hsent, Or.inr hstate⟩
    · refine Or.inr ⟨hstate, p, by rw [h, hsent], hdata, by rw [htcp]; rfl, ?_⟩
      rw [huna, htcp, hself]
      rfl

/-- **The answer to a SYN acknowledges the number after it**, and nothing
else answers a SYN. -/
theorem tcpRx_syn_sent (payload : ℕ → UInt8) (hflags : tcp.flags = tcpSyn) :
    (tcpRx t tcp payload 0).sent = t.sent ∨
      ∃ p, (tcpRx t tcp payload 0).sent = t.sent ++ [p] ∧ p.tcp.ack = tcp.seq + 1 ∧ p.data = [] := by
  have hsyn : hasFlag tcp.flags tcpSyn = true := by rw [hflags]; rfl
  have hack : hasFlag tcp.flags tcpAck = false := by rw [hflags]; rfl
  have hfin : hasFlag tcp.flags tcpFin = false := by rw [hflags]; rfl
  unfold tcpRx
  split
  · exact Or.inl rfl
  · rename_i sock _
    cases (t.heap sock).state with
    | listen =>
      rcases rxListen_cases t sock tcp with ⟨-, -, -, hsent⟩ | ⟨-, -, -, hsent⟩
      · exact Or.inl hsent
      · exact hsent.imp_right fun ⟨p, hp, _, hrest⟩ => ⟨p, hp, hrest⟩
    | established => simp [rxEstablished, hack, hfin]
    | synSent => simp [rxSynSent, hsyn, hack]
    | synRecv => simp [rxOnAck, hack]
    | closeWait => simp [rxOnAck, hack]
    | lastAck => simp [rxOnAck, hack]
    | _ => exact Or.inl rfl

/-! ## The answer -/

/-- **A socket that has sent its SYN waits for `snd_una + 1`.** A segment
that does not acknowledge that does not establish it. -/
theorem tcpRx_synSent (h : (t.heap sock).state = .synSent)
    (hack : tcp.ack ≠ (t.heap sock).sndUna + 1) :
    ((tcpRx t tcp payload len).heap sock).state ≠ .established := by
  have hself : (t.heap sock).receive tcp payload len = t.heap sock := by
    simp [Socket.receive, h, hack]
  have hsame : (t.heap sock).state ≠ .established := by
    rw [h]
    exact TcpState.noConfusion
  cases hfound : t.lookup tcp.dstPort tcp.srcPort with
  | none =>
    simp only [tcpRx, hfound]
    exact hsame
  | some x =>
    by_cases hlisten : (t.heap x).state = .listen
    · -- another socket listens on the port, and may answer with a new one
      simp only [tcpRx, hfound, hlisten]
      rcases rxListen_cases t x tcp with ⟨-, hheap, -⟩ | ⟨-, ⟨s, hs, hheap⟩, -⟩
      · rw [hheap]
        exact hsame
      · rw [hheap, Function.update_apply]
        split
        · rw [hs.1]
          exact TcpState.noConfusion
        · exact hsame
    · rw [tcpRx_heap payload len hfound hlisten, Function.update_apply]
      split
      · rename_i hx
        rw [← hx, hself]
        exact hsame
      · exact hsame

/-- **No connection is ever opened.** Whatever the initial sequence
numbers, the listener and the other sockets of both ends. -/
theorem never_connected (h : (client.heap sock).state = .closed) (server : Stack) (addr : UInt32)
    (port : UInt16) : ¬ Connected sock (handshake client server sock addr port) := by
  rintro ⟨hest, -⟩
  revert hest
  change ((deliver _ _).heap sock).state ≠ .established
  have hconnect := tcpConnect_sent addr port h
  generalize (tcpConnect client sock addr port).2 = client₁ at hconnect ⊢
  rcases hconnect with ⟨hsent, hstate⟩ | ⟨hstate, p, hsent, hdata, hflags, hseq⟩
  · -- no SYN was sent, so nothing comes back
    have hnil : sentSince client client₁ = [] := sentSince_self hsent.symm
    have hback : sentSince server (deliver server []) = [] := sentSince_self rfl
    rw [hnil, hback]
    change (client₁.heap sock).state ≠ .established
    rcases hstate with hs | hs <;> rw [hs] <;> exact TcpState.noConfusion
  · have hserver : deliver server [p] =
        tcpRx server p.tcp (fun i => p.data.getD i 0) 0 := by
      rw [deliver, List.foldl_cons, List.foldl_nil, hdata]
      rfl
    rw [sentSince_append hsent, hserver]
    rcases tcpRx_syn_sent (t := server) (fun i => p.data.getD i 0) hflags with
      hback | ⟨q, hback, hack, -⟩
    · rw [sentSince_self hback.symm]
      change (client₁.heap sock).state ≠ .established
      rw [hstate]
      exact TcpState.noConfusion
    · rw [sentSince_append hback]
      refine tcpRx_synSent hstate ?_
      rw [hack, hseq]
      intro hc
      -- the answer acknowledges one number too many
      have hnum := congrArg UInt32.toNat hc
      rw [UInt32.toNat_add _ 1] at hnum
      simp only [UInt32.reduceToNat] at hnum
      have := ((client₁.heap sock).sndUna + 1).toNat_lt
      omega

/-- A host with memory for a socket, its node and its buffer. -/
def newHost (ip : UInt32) : Stack :=
  { tcpInit (fun _ => Socket.zero) (some ip) with mem := [1, 2, 3].map fun a => ⟨a, noData⟩ }

/-- A client, its socket set up by the calls of the file. -/
def newClient : Stack :=
  { (tcpSocket (newHost 0xC0A80002)).2 with mem := [4, 5, 6].map fun a => ⟨a, noData⟩ }

/-- A host that listens on port 80. -/
def newServer : Stack :=
  { (tcpListen (tcpBind (tcpSocket (newHost 0xC0A80001)).2 1 0xC0A80001 80).2 1).2 with
    mem := [4, 5, 6, 7].map fun a => ⟨a, noData⟩ }

/-- The listener answers, and still no connection is opened. -/
theorem never_connected_listener :
    ((handshake newClient newServer 1 0xC0A80001 80).2.heap 4).state = .synRecv ∧
      ¬ Connected 1 (handshake newClient newServer 1 0xC0A80001 80) := by
  have hclosed : (newClient.heap 1).state = .closed := rfl
  exact ⟨by decide +kernel, never_connected hclosed newServer 0xC0A80001 80⟩

/-- A client and a listener on port 80, with memory for everything: the
listener answers, and the client stays where it was. -/
theorem handshake_stays_synSent :
    let ends := handshake newClient newServer 1 0xC0A80001 80
    (newClient.heap 1).state = .closed ∧ (newServer.heap 1).state = .listen ∧
      (ends.2.heap 4).state = .synRecv ∧ (ends.1.heap 1).state = .synSent ∧ ¬ Connected 1 ends := by
  refine ⟨rfl, rfl, by decide +kernel, by decide +kernel, fun h => ?_⟩
  exact absurd h.1 (by decide +kernel)

end Tcp

end Kos
