import Kos.Common.Lifetime
import Kos.Common.Linked
import Kos.Tcp.Model
/-!
# Tcp — the list of sockets, node by node

`tcp_cleanup` walks the list with a pointer to the link it came by, so
that a closed socket can be unlinked and freed on the way. Here the
sockets are nodes of a heap with their `next` pointers, every access to
a node is recorded, and what `kfree` is given holds anything afterwards.
The walk leaves the list that `Tcp.tcpCleanup` keeps, and never looks at
a node it has freed.
-/

namespace Kos

namespace Tcp

/-! ## Memory -/

/-- `struct socket`, with its link. -/
structure Node where
  socket : Socket
  next : ℕ

/-- The nodes at their addresses, the variable `sockets`, and the accesses
made so far. -/
structure Nodes where
  node : ℕ → Node
  sockets : ℕ
  accesses : List (Access ℕ)

namespace Nodes

variable {junk : ℕ → Node} {m m' : Nodes} {l ks r ps : List ℕ} {sock x : ℕ} {prev : Option ℕ}

/-- `sock->next`, of every node. -/
def next (m : Nodes) (sock : ℕ) : ℕ := (m.node sock).next

/-- The fields of a node. -/
def read (m : Nodes) (sock : ℕ) : Node × Nodes :=
  (m.node sock, { m with accesses := m.accesses ++ [.read sock] })

/-- `*prev`; `none` is `&sockets`, and an address stands for `&sock->next`. -/
def load (m : Nodes) : Option ℕ → ℕ × Nodes
  | none => (m.sockets, m)
  | some sock =>
    let (s, m) := m.read sock
    (s.next, m)

/-- `*prev = next`. -/
def store (m : Nodes) (next : ℕ) : Option ℕ → Nodes
  | none => { m with sockets := next }
  | some sock =>
    { m with
      node := Function.update m.node sock { m.node sock with next := next }
      accesses := m.accesses ++ [.write sock] }

/-- `kfree`: what was there is lost. -/
def kfree (junk : ℕ → Node) (m : Nodes) (ptr : ℕ) : Nodes :=
  { m with
    node := Function.update m.node ptr (junk ptr)
    accesses := m.accesses ++ [.free ptr] }

/-- `if (sock->buf) kfree(sock->buf)`. -/
def kfreeBuffer (junk : ℕ → Node) (m : Nodes) (sock : ℕ) (buf : Socket → Block) : Nodes :=
  let (s, m) := m.read sock
  if (buf s.socket).addr = 0 then m
  else
    let (s, m) := m.read sock
    m.kfree junk (buf s.socket).addr

/-- The turn of the loop for a closed socket; what is returned is the
next one. -/
def unlink (junk : ℕ → Node) (m : Nodes) (prev : Option ℕ) (sock : ℕ) : ℕ × Nodes :=
  let (s, m) := m.read sock
  let m := m.store s.next prev
  let m := m.kfreeBuffer junk sock Socket.rxBuf
  let m := m.kfreeBuffer junk sock Socket.txBuf
  let m := m.kfree junk sock
  m.load prev

/-- The loop of `tcp_cleanup`. Without fuel it has not come to its end. -/
def cleanupFrom (junk : ℕ → Node) : ℕ → Nodes → Option ℕ → ℕ → Option Nodes
  | 0, _, _, _ => none
  | fuel + 1, m, prev, sock =>
    if sock = 0 then some m
    else
      let (s, m) := m.read sock
      if s.socket.state = .closed then
        let (sock, m) := m.unlink junk prev sock
        cleanupFrom junk fuel m prev sock
      else
        let (s, m) := m.read sock
        cleanupFrom junk fuel m (some sock) s.next

/-- `tcp_cleanup`. -/
def tcpCleanup (junk : ℕ → Node) (fuel : ℕ) (m : Nodes) : Option Nodes :=
  cleanupFrom junk fuel m none m.sockets

/-- `tcp_socket` after its allocations. -/
def tcpSocket (m : Nodes) (sock rxBuf txBuf : Block) : ℕ × Nodes :=
  if sock.addr = 0 then (0, m)
  else
    let s := { Socket.zero with
      state := .closed, window := tcpRxBufSize.toUInt16, rxBuf := rxBuf, txBuf := txBuf }
    (sock.addr, { m with
      node := Function.update m.node sock.addr ⟨s, m.sockets⟩
      sockets := sock.addr
      accesses := m.accesses ++ [.write sock.addr] })

/-! ## Well-formed lists -/

/-- An address, if it is not `NULL`. -/
def nonNull (ptr : ℕ) : List ℕ := if ptr = 0 then [] else [ptr]

/-- The blocks of a socket: its buffers, where it has them, and itself. -/
def owned (m : Nodes) (sock : ℕ) : List ℕ :=
  nonNull (m.node sock).socket.rxBuf.addr ++ (nonNull (m.node sock).socket.txBuf.addr ++ [sock])

/-- A closed socket. -/
def closed (m : Nodes) (sock : ℕ) : Bool := (m.node sock).socket.state == .closed

/-- **A well-formed list**: following the links passes its sockets and
ends, and their blocks are distinct and were not freed. -/
structure WellFormed (m : Nodes) (l : List ℕ) : Prop where
  links : Links m.next m.sockets l 0
  live : Access.Live m.accesses (l.flatMap m.owned)

/-! ## Accesses -/

/-- **Frees some blocks and leaves others**: those stay alive and keep
what they hold. -/
structure Frees (m m' : Nodes) (ps freed : List ℕ) : Prop where
  live : Access.Live m'.accesses ps
  frees : Access.frees m'.accesses = Access.frees m.accesses ++ freed
  node : ∀ x ∈ ps, m'.node x = m.node x
  sockets : m'.sockets = m.sockets

theorem Frees.trans {m'' : Nodes} {ps' freed freed' : List ℕ} (h : Frees m m' ps freed)
    (h' : Frees m' m'' ps' freed') (hsub : ∀ x ∈ ps', x ∈ ps) :
    Frees m m'' ps' (freed ++ freed') :=
  ⟨h'.live, by rw [h'.frees, h.frees, List.append_assoc],
    fun x hx => (h'.node x hx).trans (h.node x (hsub x hx)), h'.sockets.trans h.sockets⟩

theorem read_frees (h : Access.Live m.accesses ps) (hin : sock ∈ ps) :
    Frees m (m.read sock).2 ps [] := by
  obtain ⟨hlive, hfrees⟩ := h.touch (e := .read sock) hin rfl
  exact ⟨hlive, by rw [List.append_nil]; exact hfrees, fun _ _ => rfl, rfl⟩

theorem kfree_frees (junk : ℕ → Node) (h : Access.Live m.accesses (x :: ps)) :
    Frees m (m.kfree junk x) ps [x] := by
  obtain ⟨hlive, hfrees⟩ := h.free
  have hx := (List.nodup_cons.1 h.nodup).1
  refine ⟨hlive, hfrees, fun y hy => ?_, rfl⟩
  have hne : y ≠ x := fun hc => hx (hc ▸ hy)
  exact Function.update_of_ne hne ..

/-- A buffer is freed if there is one. -/
theorem kfreeBuffer_frees (junk : ℕ → Node) (buf : Socket → Block)
    (h : Access.Live m.accesses (nonNull (buf (m.node sock).socket).addr ++ ps)) (hin : sock ∈ ps) :
    Frees m (m.kfreeBuffer junk sock buf) ps (nonNull (buf (m.node sock).socket).addr) := by
  have heq : m.kfreeBuffer junk sock buf =
      if (buf (m.node sock).socket).addr = 0 then (m.read sock).2
      else kfree junk ((m.read sock).2.read sock).2 (buf (m.node sock).socket).addr := rfl
  rw [heq]
  by_cases hnull : (buf (m.node sock).socket).addr = 0
  · rw [nonNull, if_pos hnull] at h ⊢
    rw [if_pos hnull]
    exact read_frees h hin
  · rw [nonNull, if_neg hnull] at h ⊢
    rw [if_neg hnull]
    have hread := read_frees h (List.mem_cons_of_mem _ hin)
    have hagain := read_frees hread.live (List.mem_cons_of_mem _ hin)
    exact (hread.trans hagain fun _ hx => hx).trans (kfree_frees junk hagain.live)
      fun _ hx => List.mem_cons_of_mem _ hx

/-- **Through the link**: a store to `*prev` touches the node that holds
it, and nothing but its link. -/
theorem store_spec (h : Access.Live m.accesses ps) (hprev : ∀ y, prev = some y → y ∈ ps) (q : ℕ) :
    Access.Live (m.store q prev).accesses ps ∧
      Access.frees (m.store q prev).accesses = Access.frees m.accesses ∧
      (∀ x, ((m.store q prev).node x).socket = (m.node x).socket) ∧
      (∀ x, (m.store q prev).next x = if prev = some x then q else m.next x) ∧
      (m.store q prev).sockets = if prev = none then q else m.sockets := by
  cases prev with
  | none => exact ⟨h, rfl, fun _ => rfl, fun _ => rfl, rfl⟩
  | some y =>
    obtain ⟨hlive, hfrees⟩ := h.touch (e := .write y) (hprev y rfl) rfl
    refine ⟨hlive, hfrees, fun x => ?_, fun x => ?_, rfl⟩
    · simp only [store, Function.update_apply]
      split
      · rename_i hx
        rw [hx]
      · rfl
    · simp only [next, store, Function.update_apply, Option.some.injEq, eq_comm (a := x)]
      split <;> rfl

/-- What the link leads to. -/
theorem load_spec (h : Access.Live m.accesses ps) (hprev : ∀ y, prev = some y → y ∈ ps) :
    Frees m (m.load prev).2 ps [] ∧
      (m.load prev).1 = prev.elim m.sockets m.next := by
  cases prev with
  | none => exact ⟨⟨h, (List.append_nil _).symm, fun _ _ => rfl, rfl⟩, rfl⟩
  | some y => exact ⟨read_frees h (hprev y rfl), rfl⟩

/-! ## Unlinking a socket -/

theorem mem_owned (m : Nodes) (sock : ℕ) : sock ∈ m.owned sock :=
  List.mem_append_right _ (List.mem_append_right _ (List.mem_singleton_self sock))

theorem mem_flatMap_owned {m : Nodes} (h : sock ∈ l) : sock ∈ l.flatMap m.owned :=
  List.mem_flatMap.2 ⟨sock, h, m.mem_owned sock⟩

/-- Sockets with distinct blocks are distinct. -/
theorem nodup_of_owned (h : (l.flatMap m.owned).Nodup) : l.Nodup := by
  refine (List.nodup_flatMap.1 h).2.imp ?_
  rintro x y hdisj rfl
  exact hdisj (m.mem_owned x) (m.mem_owned x)

/-- **The blocks of a socket are freed**, its own last. -/
theorem frees_owned (junk : ℕ → Node) (h : Access.Live m.accesses (m.owned sock ++ ps)) :
    Frees m (((m.kfreeBuffer junk sock Socket.rxBuf).kfreeBuffer junk sock Socket.txBuf).kfree
      junk sock) ps (m.owned sock) := by
  -- each block is off the front of the list, and the socket is still on it
  have hself : sock ∈ [sock] ++ ps := List.mem_append_left ps (List.mem_singleton_self sock)
  have hsock : sock ∈ nonNull (m.node sock).socket.txBuf.addr ++ ([sock] ++ ps) :=
    List.mem_append_right _ hself
  rw [owned, List.append_assoc, List.append_assoc] at h
  have hrx := kfreeBuffer_frees junk Socket.rxBuf h hsock
  have hlive := hrx.live
  rw [← hrx.node sock hsock] at hlive
  have htx := kfreeBuffer_frees junk Socket.txBuf hlive hself
  have hown := kfree_frees junk htx.live
  rw [hrx.node sock hsock] at htx
  have hall := (hrx.trans htx fun x hx => List.mem_append_right _ hx).trans hown
    fun x hx => List.mem_cons_of_mem _ hx
  rwa [List.append_assoc] at hall

/-- **The turn for a closed socket**: the link it came by leads past it,
its blocks are freed, and the rest is as it was. -/
theorem unlink_spec (junk : ℕ → Node) (h : Access.Live m.accesses (m.owned sock ++ ps))
    (hprev : ∀ y, prev = some y → y ∈ ps) :
    let r := m.unlink junk prev sock
    r.1 = m.next sock ∧ Access.Live r.2.accesses ps ∧
      Access.frees r.2.accesses = Access.frees m.accesses ++ m.owned sock ∧
      (∀ x ∈ ps, (r.2.node x).socket = (m.node x).socket) ∧
      (∀ x ∈ ps, r.2.next x = if prev = some x then m.next sock else m.next x) ∧
      r.2.sockets = if prev = none then m.next sock else m.sockets := by
  intro r
  have hread := read_frees h (List.mem_append_left _ (m.mem_owned sock))
  obtain ⟨hlive, hfrees, hsocket, hnext, hhead⟩ := store_spec (q := m.next sock) hread.live
    fun y hy => List.mem_append_right (m.owned sock) (hprev y hy)
  generalize hm₁ : (m.read sock).2.store (m.next sock) prev = m₁ at hlive hfrees hsocket hnext hhead
  have howned : m₁.owned sock = m.owned sock := by
    rw [owned, hsocket sock]
    rfl
  rw [← howned] at hlive
  have hall := frees_owned junk hlive
  rw [howned] at hall
  obtain ⟨hload, hvalue⟩ := load_spec hall.live hprev
  have hr : r = (((m₁.kfreeBuffer junk sock Socket.rxBuf).kfreeBuffer junk sock
      Socket.txBuf).kfree junk sock).load prev := by
    rw [← hm₁]
    rfl
  have hend := hall.trans hload fun _ hx => hx
  rw [List.append_nil, ← hr] at hend
  rw [← hr] at hvalue
  refine ⟨?_, hend.live, ?_, fun x hx => ?_, fun x hx => ?_, hend.sockets.trans hhead⟩
  · rw [hvalue]
    cases prev with
    | none => exact hall.sockets.trans hhead
    | some y =>
      rw [Option.elim_some, next, hall.node y (hprev y rfl)]
      exact (hnext y).trans (if_pos rfl)
  · rw [hend.frees, hfrees, hread.frees, List.append_nil]
  · rw [hend.node x hx]
    exact hsocket x
  · rw [next, hend.node x hx]
    exact hnext x

/-! ## The walk -/

theorem cleanupFrom_closed (junk : ℕ → Node) (fuel : ℕ) (prev : Option ℕ) (h0 : sock ≠ 0)
    (hc : m.closed sock = true) :
    cleanupFrom junk (fuel + 1) m prev sock =
      cleanupFrom junk fuel ((m.read sock).2.unlink junk prev sock).2 prev
        ((m.read sock).2.unlink junk prev sock).1 := by
  rw [cleanupFrom, if_neg h0]
  exact if_pos (beq_iff_eq.1 hc)

theorem cleanupFrom_open (junk : ℕ → Node) (fuel : ℕ) (prev : Option ℕ) (h0 : sock ≠ 0)
    (hc : m.closed sock = false) :
    cleanupFrom junk (fuel + 1) m prev sock =
      cleanupFrom junk fuel ((m.read sock).2.read sock).2 (some sock) (m.next sock) := by
  rw [cleanupFrom, if_neg h0]
  exact if_neg (beq_eq_false_iff_ne.1 hc)

/-- **The link past a closed socket** puts what was kept before what is
left of the list. -/
theorem links_past (hnodup : (ks ++ sock :: r).Nodup) (hprev : prev = ks.getLast?)
    (hfront : Links m.next m.sockets ks sock) (hrest : Links m.next (m.next sock) r 0)
    (hnext : ∀ x ∈ ks ++ r, m'.next x = if prev = some x then m.next sock else m.next x)
    (hhead : m'.sockets = if prev = none then m.next sock else m.sockets) :
    Links m'.next m'.sockets ks (m.next sock) ∧ Links m'.next (m.next sock) r 0 := by
  obtain ⟨hks, hr, hdisj⟩ := List.nodup_append.1 hnodup
  constructor
  · rcases List.eq_nil_or_concat ks with rfl | ⟨ks, y, rfl⟩
    · -- nothing was kept, and the link is the variable itself
      rw [hprev, List.getLast?_nil, if_pos rfl] at hhead
      exact hhead
    · rw [List.concat_eq_append] at *
      rw [List.getLast?_concat] at hprev
      subst hprev
      rw [if_neg (Option.some_ne_none y)] at hhead
      rw [hhead]
      refine hfront.redirect (fun b hb => ?_) ?_
      · have hne : y ≠ b := fun hc =>
          (List.nodup_append.1 hks).2.2 b hb y (List.mem_singleton_self y) hc.symm
        rw [hnext b (List.mem_append_left r (List.mem_append_left _ hb)),
          if_neg fun hc => hne (Option.some.inj hc)]
      · rw [hnext y (List.mem_append_left r (List.mem_append_right _ (List.mem_singleton_self y))),
          if_pos rfl]
  · refine hrest.congr fun b hb => ?_
    have hne : prev ≠ some b := by
      intro hc
      have hmem : b ∈ ks := List.mem_of_getLast? (hprev.symm.trans hc)
      exact hdisj b hmem b (List.mem_cons_of_mem sock hb) rfl
    rw [hnext b (List.mem_append_right ks hb), if_neg hne]

/-- **At a place in the list**: `ks` was kept, `r` is to come, the link the
place was reached by is the one of the last that was kept, and no block
of either was freed. -/
structure Walking (m : Nodes) (prev : Option ℕ) (sock : ℕ) (ks r : List ℕ) : Prop where
  front : Links m.next m.sockets ks sock
  rest : Links m.next sock r 0
  prev : prev = ks.getLast?
  live : Access.Live m.accesses ((ks ++ r).flatMap m.owned)

/-- **Past an open socket**, which is kept. -/
theorem Walking.keep (h : Walking m prev sock ks (sock :: r)) :
    Walking ((m.read sock).2.read sock).2 (some sock) (m.next sock) (ks ++ [sock]) r ∧
      Access.frees ((m.read sock).2.read sock).2.accesses = Access.frees m.accesses := by
  obtain ⟨-, h0, htail⟩ := h.rest
  have hin : sock ∈ (ks ++ sock :: r).flatMap m.owned :=
    mem_flatMap_owned (List.mem_append_right _ List.mem_cons_self)
  have hread := read_frees h.live hin
  have hagain := read_frees hread.live hin
  have hlive := hagain.live
  rw [List.append_cons] at hlive
  have hfront : Links m.next m.sockets (ks ++ [sock]) (m.next sock) :=
    links_append.2 ⟨sock, h.front, rfl, h0, rfl⟩
  refine ⟨⟨hfront, htail, List.getLast?_concat.symm, hlive⟩, ?_⟩
  rw [hagain.frees, hread.frees, List.append_nil, List.append_nil]

/-- **Past a closed socket**, which is unlinked and freed. -/
theorem Walking.drop (junk : ℕ → Node) (h : Walking m prev sock ks (sock :: r)) :
    let u := (m.read sock).2.unlink junk prev sock
    Walking u.2 prev u.1 ks r ∧
      Access.frees u.2.accesses = Access.frees m.accesses ++ m.owned sock ∧
      ∀ x ∈ ks ++ r, (u.2.node x).socket = (m.node x).socket := by
  intro u
  have hread := read_frees h.live
    (mem_flatMap_owned (List.mem_append_right ks List.mem_cons_self))
  -- the blocks of the socket come to the front
  have hperm : ((ks ++ sock :: r).flatMap m.owned).Perm
      (m.owned sock ++ (ks ++ r).flatMap m.owned) := by
    rw [← List.flatMap_cons]
    exact List.perm_middle.flatMap_right m.owned
  have hprev : ∀ y, prev = some y → y ∈ (ks ++ r).flatMap m.owned := fun y hy =>
    mem_flatMap_owned (List.mem_append_left r (List.mem_of_getLast? (h.prev.symm.trans hy)))
  obtain ⟨hfst, hlive, hfrees, hsocket, hnext, hhead⟩ :=
    unlink_spec (m := (m.read sock).2) junk (hread.live.perm hperm) hprev
  have hsame : ∀ x ∈ ks ++ r, (u.2.node x).socket = (m.node x).socket :=
    fun x hx => hsocket x (mem_flatMap_owned hx)
  obtain ⟨hfront, hrest⟩ := links_past (nodup_of_owned h.live.nodup) h.prev h.front h.rest.2.2
    (fun x hx => hnext x (mem_flatMap_owned hx)) hhead
  have howned : (ks ++ r).flatMap u.2.owned = (ks ++ r).flatMap m.owned :=
    List.flatMap_congr fun x hx => by rw [owned, owned, hsame x hx]
  refine ⟨⟨?_, ?_, h.prev, ?_⟩, ?_, hsame⟩
  · rw [hfst]
    exact hfront
  · rw [hfst]
    exact hrest
  · rw [howned]
    exact hlive
  · rw [hfrees, hread.frees, List.append_nil]
    rfl

/-- **The loop of `tcp_cleanup`**, from a place in the list on: it comes to
the end, and what is closed of the rest has left the list. -/
theorem Walking.run (junk : ℕ → Node) {fuel : ℕ} (hfuel : r.length < fuel)
    (h : Walking m prev sock ks r) :
    ∃ m' prev', cleanupFrom junk fuel m prev sock = some m' ∧
      Walking m' prev' 0 (ks ++ r.filter fun x => !m.closed x) [] ∧
      (∀ x ∈ ks ++ r.filter fun x => !m.closed x, (m'.node x).socket = (m.node x).socket) ∧
      Access.frees m'.accesses =
        Access.frees m.accesses ++ (r.filter m.closed).flatMap m.owned := by
  induction r generalizing m ks prev sock fuel with
  | nil =>
    obtain ⟨fuel, rfl⟩ : ∃ n, fuel = n + 1 := ⟨fuel - 1, by omega⟩
    obtain rfl : sock = 0 := h.rest
    refine ⟨m, prev, by rw [cleanupFrom, if_pos rfl], ?_, fun _ _ => rfl, (List.append_nil _).symm⟩
    rw [List.filter_nil, List.append_nil]
    exact h
  | cons x r ih =>
    obtain ⟨fuel, rfl⟩ : ∃ n, fuel = n + 1 := ⟨fuel - 1, by omega⟩
    obtain ⟨rfl, h0, -⟩ := h.rest
    rw [List.length_cons, Nat.add_lt_add_iff_right] at hfuel
    cases hc : m.closed sock with
    | false =>
      obtain ⟨hkeep, hfrees⟩ := h.keep
      obtain ⟨m', prev', heq, hwalk, hsocket, hfrees'⟩ := ih hfuel hkeep
      have hopen : (sock :: r).filter (fun x => !m.closed x) =
          sock :: r.filter fun x => !m.closed x := List.filter_cons_of_pos (by rw [hc]; rfl)
      rw [cleanupFrom_open junk fuel prev h0 hc, hopen, List.append_cons,
        List.filter_cons_of_neg (by rw [hc]; exact Bool.false_ne_true), ← hfrees]
      exact ⟨m', prev', heq, hwalk, hsocket, hfrees'⟩
    | true =>
      obtain ⟨hdrop, hfrees, hsame⟩ := h.drop junk
      rw [cleanupFrom_closed junk fuel prev h0 hc, List.filter_cons_of_pos hc, List.flatMap_cons,
        List.filter_cons_of_neg (by rw [hc]; exact Bool.false_ne_true), ← List.append_assoc, ← hfrees]
      obtain ⟨m', prev', heq, hwalk, hsocket, hfrees'⟩ := ih hfuel hdrop
      generalize (m.read sock).2.unlink junk prev sock = u at *
      -- what is left is as it was, and so are its states and blocks
      have hstate : ∀ x ∈ r, u.2.closed x = m.closed x := fun x hx => by
        rw [closed, closed, hsame x (List.mem_append_right ks hx)]
      have hopen : r.filter (fun x => !u.2.closed x) = r.filter fun x => !m.closed x :=
        List.filter_congr fun x hx => by rw [hstate x hx]
      have howned : (r.filter m.closed).flatMap u.2.owned = (r.filter m.closed).flatMap m.owned :=
        List.flatMap_congr fun x hx => by
          rw [owned, owned, hsame x (List.mem_append_right ks (List.mem_filter.1 hx).1)]
      rw [hopen] at hwalk hsocket
      refine ⟨m', prev', heq, hwalk, fun x hx => (hsocket x hx).trans (hsame x ?_), ?_⟩
      · rcases List.mem_append.1 hx with hx | hx
        · exact List.mem_append_left r hx
        · exact List.mem_append_right ks (List.mem_filter.1 hx).1
      · rw [hfrees', List.filter_congr hstate, howned]

/-! ## The whole list -/

/-- **What a cleanup leaves**: the sockets that are not closed, linked in
their order and as they were; the blocks of the closed ones, each freed
once; and nothing touched after it was freed. -/
structure Cleaned (m m' : Nodes) (l : List ℕ) : Prop where
  wellFormed : WellFormed m' (l.filter fun x => !m.closed x)
  kept : ∀ x ∈ l, m.closed x = false → (m'.node x).socket = (m.node x).socket
  freed : Access.frees m'.accesses = Access.frees m.accesses ++ (l.filter m.closed).flatMap m.owned
  once : (Access.frees m'.accesses).Nodup
  sound : Access.Sound m'.accesses

/-- **`tcp_cleanup` unlinks and frees the closed sockets**, whatever their
number and places and whatever a freed node holds, and comes to its end
after a turn for each socket. -/
theorem tcpCleanup_cleaned (junk : ℕ → Node) (h : WellFormed m l) {fuel : ℕ}
    (hfuel : l.length < fuel) : ∃ m', tcpCleanup junk fuel m = some m' ∧ Cleaned m m' l := by
  have hstart : Walking m none m.sockets [] l := ⟨rfl, h.links, rfl, h.live⟩
  obtain ⟨m', prev', heq, hwalk, hsocket, hfrees⟩ := hstart.run junk hfuel
  have hlive := hwalk.live
  rw [List.append_nil, List.nil_append] at hlive
  refine ⟨m', heq, ⟨hwalk.front, hlive⟩, fun x hx hc => hsocket x ?_, hfrees,
    hlive.sound.nodup_frees, hlive.sound⟩
  exact List.mem_filter.2 ⟨hx, by rw [hc]; rfl⟩

/-- A closed socket between two open ones, without a transmit buffer. -/
theorem tcpCleanup_cleaned_middle :
    let s (state : TcpState) (rx tx : ℕ) : Socket :=
      { Socket.zero with state := state, rxBuf := ⟨rx, fun _ => 0⟩, txBuf := ⟨tx, fun _ => 0⟩ }
    let node (x : ℕ) : Node :=
      match x with
      | 1 => ⟨s .established 10 20, 2⟩
      | 2 => ⟨s .closed 30 0, 3⟩
      | _ => ⟨s .listen 40 50, 0⟩
    ∃ m', tcpCleanup node 4 ⟨node, 1, []⟩ = some m' ∧ Cleaned ⟨node, 1, []⟩ m' [1, 2, 3] :=
  tcpCleanup_cleaned _ (by
    refine ⟨?_, Access.sound_nil, by decide, fun _ _ => List.not_mem_nil⟩
    exact ⟨rfl, by decide, rfl, by decide, rfl, by decide, rfl⟩) (by decide)

/-- The nodes hold a stack. -/
structure Holds (m : Nodes) (t : Stack) : Prop where
  wellFormed : WellFormed m t.sockets
  heap : ∀ sock ∈ t.sockets, (m.node sock).socket = t.heap sock

/-- **The walk leaves the list that is kept of the stack.** -/
theorem Holds.cleanup (junk : ℕ → Node) {t : Stack} (h : Holds m t) {fuel : ℕ}
    (hfuel : t.sockets.length < fuel) :
    ∃ m', tcpCleanup junk fuel m = some m' ∧ Holds m' (Tcp.tcpCleanup t) := by
  obtain ⟨m', heq, hcleaned⟩ := tcpCleanup_cleaned junk h.wellFormed hfuel
  have hfilter : t.sockets.filter (fun x => !m.closed x) = (Tcp.tcpCleanup t).sockets := by
    refine List.filter_congr fun x hx => ?_
    rw [closed, h.heap x hx]
    rfl
  refine ⟨m', heq, hfilter ▸ hcleaned.wellFormed, fun x hx => ?_⟩
  rw [← hfilter] at hx
  obtain ⟨hin, hopen⟩ := List.mem_filter.1 hx
  rw [Bool.not_eq_true'] at hopen
  exact (hcleaned.kept x hin hopen).trans (h.heap x hin)

/-- What `tcp_socket` writes. -/
theorem tcpSocket_spec (m : Nodes) {s : Block} (rxBuf txBuf : Block) (h0 : s.addr ≠ 0) :
    let m' := (m.tcpSocket s rxBuf txBuf).2
    m'.next s.addr = m.sockets ∧
      m'.owned s.addr = nonNull rxBuf.addr ++ (nonNull txBuf.addr ++ [s.addr]) ∧
      (∀ x, x ≠ s.addr → m'.node x = m.node x) ∧ m'.sockets = s.addr ∧
      m'.accesses = m.accesses ++ [.write s.addr] := by
  simp only [Nodes.tcpSocket, if_neg h0, next, owned, Function.update_self]
  exact ⟨trivial, trivial, fun x hx => Function.update_of_ne hx .., trivial, trivial⟩

/-- **`tcp_socket` links a socket before the others**, at blocks that are
in use nowhere. -/
theorem WellFormed.tcpSocket (h : WellFormed m l) {s rxBuf txBuf : Block} (h0 : s.addr ≠ 0)
    (hlive : Access.Live m.accesses
      (nonNull rxBuf.addr ++ (nonNull txBuf.addr ++ [s.addr]) ++ l.flatMap m.owned)) :
    WellFormed (m.tcpSocket s rxBuf txBuf).2 (s.addr :: l) := by
  obtain ⟨hnext, howned, hnode, hhead, haccesses⟩ := tcpSocket_spec m rxBuf txBuf h0
  have hself : s.addr ∈ nonNull rxBuf.addr ++ (nonNull txBuf.addr ++ [s.addr]) :=
    List.mem_append_right _ (List.mem_append_right _ (List.mem_singleton_self s.addr))
  have hne : ∀ x ∈ l, x ≠ s.addr := by
    rintro x hx rfl
    exact (List.nodup_append.1 hlive.nodup).2.2 s.addr hself s.addr (mem_flatMap_owned hx) rfl
  generalize (m.tcpSocket s rxBuf txBuf).2 = m' at *
  refine ⟨?_, ?_⟩
  · rw [hhead]
    refine ⟨rfl, h0, ?_⟩
    rw [hnext]
    exact h.links.congr fun x hx => by rw [next, next, hnode x (hne x hx)]
  · have hold : l.flatMap m'.owned = l.flatMap m.owned :=
      List.flatMap_congr fun x hx => by rw [owned, owned, hnode x (hne x hx)]
    rw [List.flatMap_cons, howned, hold, haccesses]
    exact (hlive.touch (e := .write s.addr) (List.mem_append_left _ hself) rfl).1

/-- And so it does on the stack that the nodes hold. -/
theorem Holds.tcpSocket {t : Stack} (h : Holds m t) {s rxBuf txBuf : Block} (h0 : s.addr ≠ 0)
    (hlive : Access.Live m.accesses
      (nonNull rxBuf.addr ++ (nonNull txBuf.addr ++ [s.addr]) ++ t.sockets.flatMap m.owned)) :
    Holds (m.tcpSocket s rxBuf txBuf).2 (Tcp.tcpSocket (t.given [s, rxBuf, txBuf])).2 := by
  have hformed := h.wellFormed.tcpSocket h0 hlive
  have heq : Tcp.tcpSocket (t.given [s, rxBuf, txBuf]) = _ := if_neg h0
  rw [heq]
  refine ⟨hformed, fun x hx => ?_⟩
  simp only [Nodes.tcpSocket, if_neg h0]
  by_cases hne : x = s.addr
  · rw [hne, Function.update_self]
    exact (@Function.update_self ℕ (fun _ => Socket) _ s.addr _ t.heap).symm
  · rw [Function.update_of_ne hne, h.heap x ((List.mem_cons.1 hx).resolve_left hne)]
    exact (@Function.update_of_ne ℕ (fun _ => Socket) _ x s.addr hne _ t.heap).symm

end Nodes

end Tcp

end Kos
