import ZurichOS.Handles
import ZurichOS.TcpHandshake

set_option linter.all false

/-!
Which socket a TCP connection belongs to.  `tcp_close` frees a connection and leaves the
socket's pointer to it, and `tcp_alloc_conn` gives the slot to the next caller, so the
invariant speaks of stale pointers too.
-/

namespace ZurichOS

open Words ByteReader Transitions Handles

/-! The two tables. -/

/-- The connection of a socket in use. -/
def Socket.handle (socket : Socket) : Option Nat := if socket.inUse then socket.conn else none

abbrev TcpTuple : Type := Nat × Nat × Nat

def TcpConn.tuple (conn : TcpConn) : TcpTuple := (conn.remoteIp, conn.remotePort, conn.localPort)

/-- What a connection that is in use and not listening claims for itself. -/
def TcpConn.claim (conn : TcpConn) : Option TcpTuple :=
  if conn.inUse ∧ conn.state ≠ .listen then some conn.tuple else none

def sockPoints (sockets : Nat → Socket) (fd : Nat) : Option Nat :=
  if fd < maxSockets then (sockets fd).handle else none

def connClaims (connections : Nat → TcpConn) (i : Nat) : Option TcpTuple :=
  if i < maxTcpConnections then (connections i).claim else none

def connLive (connections : Nat → TcpConn) (i : Nat) : Prop :=
  i < maxTcpConnections ∧ (connections i).inUse = true

structure TablesKept (sockets : Nat → Socket) (connections : Nat → TcpConn) : Prop where
  owned : Owned (sockPoints sockets) (connLive connections)
  distinct : Apart (connClaims connections)
  streams : ∀ fd i, sockPoints sockets fd = some i → (sockets fd).type = sockStream

/-- Each connection in use is referenced by exactly one socket in use, and no two that are
not listening have the same remote address, remote port and local port. -/
structure TablesSound (sockets : Nat → Socket) (connections : Nat → TcpConn) : Prop where
  owned : ∀ i, connLive connections i → ∃! fd, sockPoints sockets fd = some i
  distinct : ∀ i j, connLive connections i → (connections i).state ≠ .listen →
    connLive connections j → (connections j).state ≠ .listen →
    (connections i).tuple = (connections j).tuple → i = j

/-- The socket leaves no connection in use behind. -/
def LetsGo (sockets : Nat → Socket) (connections : Nat → TcpConn) (fd : Nat) : Prop :=
  ∀ i, sockPoints sockets fd = some i → ¬ connLive connections i

/-- No other socket points to the slot, and no other connection has the claim. -/
def Unclaimed (sockets : Nat → Socket) (connections : Nat → TcpConn) (fd slot : Nat)
    (claim : Option TcpTuple) : Prop :=
  (∀ other, other ≠ fd → sockPoints sockets other ≠ some slot) ∧
    ∀ tuple, claim = some tuple → ∀ i, connClaims connections i ≠ some tuple

/-- What an operation on the socket `fd` can do to the tables, and on what condition it keeps
them in order. -/
inductive SocketEffect (sockets : Nat → Socket) (connections : Nat → TcpConn) (fd : Nat) :
    Prop → (Nat → Socket) → (Nat → TcpConn) → Prop
  | same : SocketEffect sockets connections fd True sockets connections
  | alter (socket : Socket) (opened : fd < maxSockets)
      (handle : socket.handle = (sockets fd).handle)
      (type : socket.handle ≠ none → socket.type = (sockets fd).type) :
      SocketEffect sockets connections fd True (Function.update sockets fd socket) connections
  | touch (i : Nat) (conn : TcpConn) (mine : sockPoints sockets fd = some i)
      (inUse : conn.inUse = (connections i).inUse) (claim : conn.claim = (connections i).claim) :
      SocketEffect sockets connections fd True sockets (Function.update connections i conn)
  | free (after : Nat → TcpConn)
      (freed : ∀ i, sockPoints sockets fd = some i → (after i).inUse = false)
      (others : ∀ i, sockPoints sockets fd ≠ some i → after i = connections i) :
      SocketEffect sockets connections fd True sockets after
  | close (socket : Socket) (opened : fd < maxSockets) (closed : socket.inUse = false)
      (after : Nat → TcpConn)
      (freed : ∀ i, sockPoints sockets fd = some i → (after i).inUse = false)
      (others : ∀ i, sockPoints sockets fd ≠ some i → after i = connections i) :
      SocketEffect sockets connections fd True (Function.update sockets fd socket) after
  | lose (socket : Socket) (opened : fd < maxSockets) (handle : socket.handle = none) :
      SocketEffect sockets connections fd (LetsGo sockets connections fd)
        (Function.update sockets fd socket) connections
  | take (socket : Socket) (opened : fd < maxSockets) (slot : Nat) (conn : TcpConn)
      (handle : socket.handle = some slot) (stream : socket.type = sockStream)
      (inside : slot < maxTcpConnections) (free : (connections slot).inUse = false)
      (inUse : conn.inUse = true) :
      SocketEffect sockets connections fd
        (LetsGo sockets connections fd ∧ Unclaimed sockets connections fd slot conn.claim)
        (Function.update sockets fd socket) (Function.update connections slot conn)

section Tables

variable {sockets : Nat → Socket} {connections : Nat → TcpConn}

theorem sockPoints_update {fd : Nat} (opened : fd < maxSockets) (socket : Socket) :
    sockPoints (Function.update sockets fd socket) =
      Function.update (sockPoints sockets) fd socket.handle := by
  funext i
  by_cases same : i = fd
  · rw [same, Function.update_self, sockPoints, if_pos opened, Function.update_self]
  · rw [Function.update_of_ne same, sockPoints, sockPoints, Function.update_of_ne same]

theorem sockPoints_alter {fd : Nat} {socket : Socket}
    (handle : socket.handle = (sockets fd).handle) :
    sockPoints (Function.update sockets fd socket) = sockPoints sockets := by
  funext i
  by_cases same : i = fd
  · rw [same, sockPoints, sockPoints, Function.update_self, handle]
  · rw [sockPoints, sockPoints, Function.update_of_ne same]

theorem connClaims_update {slot : Nat} (inside : slot < maxTcpConnections) (conn : TcpConn) :
    connClaims (Function.update connections slot conn) =
      Function.update (connClaims connections) slot conn.claim := by
  funext i
  by_cases same : i = slot
  · rw [same, Function.update_self, connClaims, if_pos inside, Function.update_self]
  · rw [Function.update_of_ne same, connClaims, connClaims, Function.update_of_ne same]

theorem connClaims_some {i : Nat} {tuple : TcpTuple} :
    connClaims connections i = some tuple ↔
      connLive connections i ∧ (connections i).state ≠ .listen ∧
        (connections i).tuple = tuple := by
  unfold connClaims TcpConn.claim connLive
  split
  next inside => simp [inside, and_assoc]
  next outside => simp [outside]

theorem TablesKept.sound (kept : TablesKept sockets connections) :
    TablesSound sockets connections := by
  refine ⟨fun i used => kept.owned.unique used, ?_⟩
  intro i j usedI activeI usedJ activeJ same
  exact kept.distinct i j _ (connClaims_some.mpr ⟨usedI, activeI, same⟩)
    (connClaims_some.mpr ⟨usedJ, activeJ, rfl⟩)

theorem TablesSound.apart (sound : TablesSound sockets connections) :
    Apart (connClaims connections) := by
  intro i j tuple first second
  obtain ⟨usedI, activeI, hereI⟩ := connClaims_some.mp first
  obtain ⟨usedJ, activeJ, hereJ⟩ := connClaims_some.mp second
  exact sound.distinct i j usedI activeI usedJ activeJ (hereI.trans hereJ.symm)

/-- Connections that stay keep their claims. -/
theorem connClaims_sub {after : Nat → TcpConn}
    (same : ∀ i, connLive after i → after i = connections i) {i : Nat} {tuple : TcpTuple}
    (claim : connClaims after i = some tuple) : connClaims connections i = some tuple := by
  obtain ⟨used, active, here⟩ := connClaims_some.mp claim
  have eq := same i used
  rw [connLive, eq] at used
  rw [eq] at active here
  exact connClaims_some.mpr ⟨used, active, here⟩

/-- What is in use after the socket's own connection has been freed is another's. -/
theorem connLive_freed {fd : Nat} {after : Nat → TcpConn}
    (freed : ∀ i, sockPoints sockets fd = some i → (after i).inUse = false)
    (others : ∀ i, sockPoints sockets fd ≠ some i → after i = connections i) {i : Nat}
    (used : connLive after i) : sockPoints sockets fd ≠ some i ∧ after i = connections i := by
  have foreign : sockPoints sockets fd ≠ some i := by
    intro mine
    exact absurd used.2 (Bool.eq_false_iff.mp (freed i mine))
  exact ⟨foreign, others i foreign⟩

theorem connLive_congr {after : Nat → TcpConn} {i : Nat} (same : after i = connections i)
    (used : connLive after i) : connLive connections i := by
  rw [connLive, same] at used
  exact used

theorem connLive_grown {slot : Nat} {conn : TcpConn} {i : Nat}
    (used : connLive (Function.update connections slot conn) i) :
    i = slot ∨ connLive connections i := by
  by_cases same : i = slot
  · exact Or.inl same
  · exact Or.inr (connLive_congr (Function.update_of_ne same conn connections) used)

theorem connLive_touched {i j : Nat} {conn : TcpConn}
    (inUse : conn.inUse = (connections i).inUse) :
    connLive (Function.update connections i conn) j ↔ connLive connections j := by
  by_cases same : j = i
  · rw [same, connLive, connLive, Function.update_self, inUse]
  · rw [connLive, connLive, Function.update_of_ne same]

theorem connClaims_touched {i : Nat} {conn : TcpConn}
    (claim : conn.claim = (connections i).claim) :
    connClaims (Function.update connections i conn) = connClaims connections := by
  funext j
  by_cases same : j = i
  · rw [same, connClaims, connClaims, Function.update_self, claim]
  · rw [connClaims, connClaims, Function.update_of_ne same]

/-- A socket's type is looked at where it points to a connection. -/
theorem streams_update (kept : TablesKept sockets connections) {fd : Nat} {socket : Socket}
    (stream : ∀ i, socket.handle = some i → socket.type = sockStream) {other i : Nat}
    (points : sockPoints (Function.update sockets fd socket) other = some i) :
    (Function.update sockets fd socket other).type = sockStream := by
  by_cases same : other = fd
  · rw [same, sockPoints, Function.update_self] at points
    rw [same, Function.update_self]
    split at points
    · exact stream i points
    · cases points
  · rw [sockPoints, Function.update_of_ne same] at points
    rw [Function.update_of_ne same]
    exact kept.streams other i points

variable {fd : Nat} {condition : Prop} {socketsAfter : Nat → Socket}
  {connectionsAfter : Nat → TcpConn}

theorem SocketEffect.kept (kept : TablesKept sockets connections)
    (effect : SocketEffect sockets connections fd condition socketsAfter connectionsAfter)
    (met : condition) : TablesKept socketsAfter connectionsAfter := by
  cases effect with
  | same => exact kept
  | alter socket opened handle type =>
      refine ⟨?_, kept.distinct, fun other i => streams_update kept fun i there => ?_⟩
      · rw [sockPoints_alter handle]
        exact kept.owned
      · have points : sockPoints sockets fd = some i := by
          rw [sockPoints, if_pos opened, ← handle]
          exact there
        rw [type (there ▸ Option.some_ne_none i)]
        exact kept.streams fd i points
  | touch i conn mine inUse claim =>
      refine ⟨kept.owned.shrink fun j => (connLive_touched inUse).mp, ?_, kept.streams⟩
      rw [connClaims_touched claim]
      exact kept.distinct
  | free after freed others =>
      have same (i : Nat) (used : connLive connectionsAfter i) :=
        (connLive_freed freed others used).2
      exact ⟨kept.owned.shrink fun i used => connLive_congr (same i used) used,
        kept.distinct.sub fun i tuple => connClaims_sub same, kept.streams⟩
  | close socket opened closed after freed others =>
      have same (i : Nat) (used : connLive connectionsAfter i) := connLive_freed freed others used
      have handle : socket.handle = none := by
        rw [Socket.handle, closed]
        rfl
      refine ⟨?_, kept.distinct.sub fun i tuple => connClaims_sub fun i used => (same i used).2, ?_⟩
      · rw [sockPoints_update opened, handle]
        exact kept.owned.drop fun i used =>
          ⟨connLive_congr (same i used).2 used, (same i used).1⟩
      · intro other i
        refine streams_update kept fun i there => ?_
        rw [handle] at there
        cases there
  | lose socket opened handle =>
      refine ⟨?_, kept.distinct, ?_⟩
      · rw [sockPoints_update opened, handle]
        exact kept.owned.drop fun i used => ⟨used, fun mine => met i mine used⟩
      · intro other i
        refine streams_update kept fun i there => ?_
        rw [handle] at there
        cases there
  | take socket opened slot conn handle stream inside free inUse =>
      obtain ⟨letsGo, fresh, claims⟩ := met
      refine ⟨?_, ?_, fun other i => streams_update kept fun _ _ => stream⟩
      · rw [sockPoints_update opened, handle]
        exact kept.owned.take letsGo fresh fun i => connLive_grown
      · rw [connClaims_update inside]
        exact kept.distinct.put fun tuple claim other _ => claims tuple claim other

/-- Tables that are in order after an operation show that it met its condition. -/
theorem SocketEffect.exact (kept : TablesKept sockets connections)
    (effect : SocketEffect sockets connections fd condition socketsAfter connectionsAfter)
    (sound : TablesSound socketsAfter connectionsAfter) : condition := by
  cases effect with
  | same => trivial
  | alter socket opened handle type => trivial
  | touch i conn mine inUse claim => trivial
  | free after freed others => trivial
  | close socket opened closed after freed others => trivial
  | lose socket opened handle =>
      intro i mine used
      obtain ⟨holder, there, -⟩ := sound.owned i used
      rw [sockPoints_update opened, handle] at there
      exact kept.owned.apart.lost mine (Option.some_ne_none i).symm holder there
  | take socket opened slot conn handle stream inside free inUse =>
      have idle : ¬ connLive connections slot := fun used =>
        absurd used.2 (Bool.eq_false_iff.mp free)
      have still {i : Nat} (used : connLive connections i) :
          i ≠ slot ∧ Function.update connections slot conn i = connections i := by
        have other : i ≠ slot := fun same => idle (same ▸ used)
        exact ⟨other, Function.update_of_ne other conn connections⟩
      refine ⟨fun i mine used => ?_, fun other different there => ?_, fun tuple claim i here => ?_⟩
      · obtain ⟨different, eq⟩ := still used
        have usedAfter : connLive (Function.update connections slot conn) i := by
          rw [connLive, eq]
          exact used
        obtain ⟨holder, there, -⟩ := sound.owned i usedAfter
        rw [sockPoints_update opened, handle] at there
        refine kept.owned.apart.lost mine (fun same => ?_) holder there
        exact different (Option.some.inj same).symm
      · have taken : connLive (Function.update connections slot conn) slot := by
          rw [connLive, Function.update_self]
          exact ⟨inside, inUse⟩
        have unique := sound.owned slot taken
        rw [sockPoints_update opened, handle] at unique
        refine different (unique.unique ?_ (Function.update_self fd _ _))
        rw [Function.update_of_ne different]
        exact there
      · have used := (connClaims_some.mp here).1
        have apart := sound.apart
        rw [connClaims_update inside, claim] at apart
        exact apart.fresh (still used).1 here

/-- An operation that meets its condition leaves every other socket and its connection
alone. -/
theorem SocketEffect.isolated (kept : TablesKept sockets connections)
    (effect : SocketEffect sockets connections fd condition socketsAfter connectionsAfter)
    (met : condition) {other : Nat} (different : other ≠ fd) :
    socketsAfter other = sockets other ∧
      ∀ i, sockPoints sockets other = some i → connectionsAfter i = connections i := by
  have foreign (i j : Nat) (mine : sockPoints sockets fd = some i)
      (theirs : sockPoints sockets other = some j) : j ≠ i := by
    rintro rfl
    exact different (kept.owned.apart other fd j theirs mine)
  have notMine (i : Nat) (theirs : sockPoints sockets other = some i) :
      sockPoints sockets fd ≠ some i := fun mine => foreign i i mine theirs rfl
  cases effect with
  | same => exact ⟨rfl, fun _ _ => rfl⟩
  | alter socket opened handle type =>
      exact ⟨Function.update_of_ne different socket sockets, fun _ _ => rfl⟩
  | touch i conn mine inUse claim =>
      exact ⟨rfl, fun j theirs => Function.update_of_ne (foreign i j mine theirs) conn connections⟩
  | free after freed others => exact ⟨rfl, fun i theirs => others i (notMine i theirs)⟩
  | close socket opened closed after freed others =>
      exact ⟨Function.update_of_ne different socket sockets,
        fun i theirs => others i (notMine i theirs)⟩
  | lose socket opened handle =>
      exact ⟨Function.update_of_ne different socket sockets, fun _ _ => rfl⟩
  | take socket opened slot conn handle stream inside free inUse =>
      refine ⟨Function.update_of_ne different socket sockets, fun i theirs => ?_⟩
      apply Function.update_of_ne
      rintro rfl
      exact met.2.1 other different theirs

end Tables

/-! What the calls do to the tables. -/

section Calls

variable {s : Net}

theorem setConn_connections (i : Nat) (conn : TcpConn) :
    (s.setConn i conn).connections = Function.update s.connections i conn := by
  funext j
  rw [Net.setConn, Function.update_apply]

@[simp] theorem setConn_sockets (i : Nat) (conn : TcpConn) :
    (s.setConn i conn).sockets = s.sockets := rfl

theorem setSocket_sockets (fd : Nat) (socket : Socket) :
    (s.setSocket fd socket).sockets = Function.update s.sockets fd socket := by
  funext i
  rw [Net.setSocket, Function.update_apply]

@[simp] theorem tcpSendPacket_sockets (index flags data len : Nat) :
    (tcpSendPacket s index flags data len).sockets = s.sockets := by
  unfold tcpSendPacket
  dsimp only
  split <;> rfl

/-- The slot `tcp_alloc_conn` hands out. -/
def tcpFreeSlot (s : Net) : Option Nat := (tcpAllocConn s).map Prod.fst

/-- A connection is opened in a slot that was free. -/
structure Opened (s : Net) (slot : Nat) (after : Net) (conn : TcpConn) : Prop where
  found : tcpFreeSlot s = some slot
  inside : slot < maxTcpConnections
  free : (s.connections slot).inUse = false
  inUse : conn.inUse = true
  sockets : after.sockets = s.sockets
  connections : after.connections = Function.update s.connections slot conn

def TcpConn.listening (localIp port : Nat) : TcpConn :=
  ⟨localIp, 0, port, 0, 0, 0, .listen, 0, 0, true⟩

theorem setConn_setConn (i : Nat) (first second : TcpConn) :
    (s.setConn i first).setConn i second = s.setConn i second := by
  simp only [Net.setConn, Net.mk.injEq, and_true, true_and]
  funext j
  split <;> rfl

theorem tcpListen_cases (s : Net) (port : Nat) :
    tcpFreeSlot s = none ∧ tcpListen s port = none ∨
      ∃ slot after conn, tcpListen s port = some (slot, after) ∧ conn.claim = none ∧
        Opened s slot after conn := by
  cases found : tcpAllocConn s with
  | none =>
      left
      simp [tcpFreeSlot, tcpListen, found]
  | some allocated =>
      right
      obtain ⟨slot, after⟩ := allocated
      obtain ⟨inside, free⟩ := tcpAllocConn_free found
      obtain rfl := tcpAllocConn_some found
      have slotFree : tcpFreeSlot s = some slot := by rw [tcpFreeSlot, found, Option.map_some]
      refine ⟨slot, s.setConn slot (.listening s.netifIp port), .listening s.netifIp port, ?_, rfl,
        slotFree, inside, free, rfl, rfl, setConn_connections _ _⟩
      simp only [tcpListen, found, Option.bind_eq_bind, Option.bind_some, Option.pure_def,
        setConn_same, setConn_setConn]
      rfl

theorem tcpConnect_cases (s : Net) (destIp destPort : Nat) :
    tcpFreeSlot s = none ∧ tcpConnect s destIp destPort = none ∨
      ∃ slot after conn, tcpConnect s destIp destPort = some (slot, after) ∧
        conn.claim = some (destIp, destPort, 49152 + destPort % 16384) ∧
        Opened s slot after conn := by
  cases found : tcpAllocConn s with
  | none =>
      left
      simp [tcpFreeSlot, tcpConnect, found]
  | some allocated =>
      right
      obtain ⟨slot, after⟩ := allocated
      obtain ⟨inside, free⟩ := tcpAllocConn_free found
      have result := tcpCall_connect destIp destPort found
      obtain rfl := tcpAllocConn_some found
      have slotFree : tcpFreeSlot s = some slot := by rw [tcpFreeSlot, found, Option.map_some]
      refine ⟨slot, tcpCall s (.connect destIp destPort),
        { TcpConn.connecting s.netifIp destIp destPort with seq := 1001 }, ?_, ?_, slotFree, inside,
        free, rfl, ?_, ?_⟩
      · simp [tcpCall, tcpConnect, found]
      · rfl
      · rw [result, setConn_sockets, tcpSendPacket_sockets, setConn_sockets, setConn_sockets]
      · rw [result, setConn_connections, tcpSendPacket_connections, setConn_connections,
          setConn_connections]
        simp

/-- What `tcp_close` does: the connection is freed, and the others stay. -/
theorem tcpClose_freed (s : Net) (conn : Option Nat) :
    (tcpClose s conn).sockets = s.sockets ∧
      (∀ i, conn = some i → ((tcpClose s conn).connections i).inUse = false) ∧
      ∀ i, conn ≠ some i → (tcpClose s conn).connections i = s.connections i := by
  cases conn with
  | none => exact ⟨rfl, fun i missing => (by cases missing), fun _ _ => rfl⟩
  | some index =>
      simp only [tcpClose]
      refine ⟨?_, fun i mine => ?_, fun i foreign => ?_⟩
      · split <;> simp
      · rw [Option.some.inj mine, setConn_same]
      · have other : i ≠ index := fun same => foreign (congrArg some same.symm)
        rw [setConn_other _ _ _ other]
        split
        · rw [setConn_other _ _ _ other, tcpSendPacket_connections]
        · rfl

theorem getSocket_some {fd : Nat} {socket : Socket} (found : getSocket s fd = some socket) :
    fd < maxSockets ∧ s.sockets fd = socket ∧ socket.inUse = true := by
  unfold getSocket at found
  split at found
  next => cases found
  next bound =>
    split at found
    next inUse =>
      cases found
      exact ⟨Nat.lt_of_not_le bound, rfl, inUse⟩
    next => cases found

theorem getSocket_points {fd : Nat} {socket : Socket} (found : getSocket s fd = some socket) :
    sockPoints s.sockets fd = socket.conn := by
  obtain ⟨bound, rfl, inUse⟩ := getSocket_some found
  rw [sockPoints, if_pos bound, Socket.handle, if_pos inUse]

/-- The call does to the tables what an operation on the socket `fd` can do. -/
def Net.Effect (s : Net) (fd : Nat) (condition : Prop) (after : Net) : Prop :=
  ∃ met, SocketEffect s.sockets s.connections fd met after.sockets after.connections ∧
    (met ↔ condition)

theorem Net.Effect.of_same {after : Net} (fd : Nat) (sockets : after.sockets = s.sockets)
    (connections : after.connections = s.connections) : s.Effect fd True after := by
  refine ⟨True, ?_, Iff.rfl⟩
  rw [sockets, connections]
  exact .same

theorem socketCreate_effect (s : Net) (domain type : Nat) :
    ∃ fd, s.Effect fd True (socketCreate s domain type).2 := by
  unfold socketCreate
  split
  · exact ⟨0, .of_same 0 rfl rfl⟩
  · split
    · exact ⟨0, .of_same 0 rfl rfl⟩
    · split
      next => exact ⟨0, .of_same 0 rfl rfl⟩
      next i first =>
        have bound := List.mem_range.mp (List.mem_of_find?_eq_some first)
        have idle : (s.sockets i).inUse = false := by simpa using List.find?_some first
        refine ⟨i, True, ?_, Iff.rfl⟩
        rw [setSocket_sockets]
        refine .alter _ bound ?_ fun points => absurd rfl points
        rw [Socket.handle, Socket.handle, idle]
        rfl

theorem socketBind_effect (s : Net) (fd addr : Nat) :
    s.Effect fd True (socketBind s fd addr).2 := by
  unfold socketBind
  split
  next => exact .of_same fd rfl rfl
  next socket found =>
    obtain ⟨bound, rfl, -⟩ := getSocket_some found
    refine ⟨True, ?_, Iff.rfl⟩
    simp only [setSocket_sockets]
    exact .alter _ bound rfl fun _ => rfl

/-- A stream socket that opens a connection leaves none in use behind, and takes a slot and a
claim that nothing else has. -/
def OpensCarefully (s : Net) (fd : Nat) (claim : Option TcpTuple) : Prop :=
  ∀ socket, getSocket s fd = some socket → socket.type = sockStream →
    LetsGo s.sockets s.connections fd ∧
      ∀ slot, tcpFreeSlot s = some slot → Unclaimed s.sockets s.connections fd slot claim

theorem opensCarefully_none {fd : Nat} {claim : Option TcpTuple} {socket : Socket}
    (found : getSocket s fd = some socket) (stream : socket.type = sockStream)
    (full : tcpFreeSlot s = none) :
    LetsGo s.sockets s.connections fd ↔ OpensCarefully s fd claim := by
  constructor
  · intro letsGo other same _
    refine ⟨letsGo, fun slot free => ?_⟩
    rw [full] at free
    cases free
  · exact fun careful => (careful socket found stream).1

theorem opensCarefully_some {fd slot : Nat} {claim : Option TcpTuple} {socket : Socket}
    (found : getSocket s fd = some socket) (stream : socket.type = sockStream)
    (free : tcpFreeSlot s = some slot) :
    LetsGo s.sockets s.connections fd ∧ Unclaimed s.sockets s.connections fd slot claim ↔
      OpensCarefully s fd claim := by
  constructor
  · rintro ⟨letsGo, unclaimed⟩ other same _
    refine ⟨letsGo, fun i here => ?_⟩
    rw [Option.some.inj (here.symm.trans free)]
    exact unclaimed
  · intro careful
    obtain ⟨letsGo, unclaimed⟩ := careful socket found stream
    exact ⟨letsGo, unclaimed slot free⟩

/-- A slot that was free becomes the socket's connection. -/
theorem Opened.effect {fd slot : Nat} {after : Net} {conn : TcpConn} {claim : Option TcpTuple}
    {socket : Socket} (fresh : Opened s slot after conn) (here : conn.claim = claim)
    (found : getSocket s fd = some socket) (stream : socket.type = sockStream)
    {later : Socket} (handle : later.handle = some slot) (type : later.type = socket.type) :
    s.Effect fd (OpensCarefully s fd claim) (after.setSocket fd later) := by
  obtain ⟨bound, -, -⟩ := getSocket_some found
  refine ⟨LetsGo s.sockets s.connections fd ∧
    Unclaimed s.sockets s.connections fd slot conn.claim, ?_, ?_⟩
  · rw [setSocket_sockets, fresh.sockets, show (after.setSocket fd later).connections = _ from
      fresh.connections]
    exact .take later bound slot conn handle (type.trans stream) fresh.inside fresh.free fresh.inUse
  · rw [here]
    exact opensCarefully_some found stream fresh.found

/-- Without a free slot the socket's pointer is set to null. -/
theorem lose_effect {fd : Nat} {after : Net} {claim : Option TcpTuple} {socket : Socket}
    (full : tcpFreeSlot s = none) (found : getSocket s fd = some socket)
    (stream : socket.type = sockStream) {later : Socket} (handle : later.handle = none)
    (sockets : after.sockets = Function.update s.sockets fd later)
    (connections : after.connections = s.connections) :
    s.Effect fd (OpensCarefully s fd claim) after := by
  obtain ⟨bound, -, -⟩ := getSocket_some found
  refine ⟨LetsGo s.sockets s.connections fd, ?_, opensCarefully_none found stream full⟩
  rw [sockets, connections]
  exact .lose later bound handle

theorem Net.Effect.congr {fd : Nat} {condition other : Prop} {after : Net}
    (effect : s.Effect fd condition after) (same : condition ↔ other) :
    s.Effect fd other after := by
  obtain ⟨met, changes, iff⟩ := effect
  exact ⟨met, changes, iff.trans same⟩

/-- Only a stream socket opens connections. -/
theorem opensCarefully_of_not {fd : Nat} {claim : Option TcpTuple}
    (noStream : ∀ socket, getSocket s fd = some socket → socket.type ≠ sockStream) :
    True ↔ OpensCarefully s fd claim :=
  (true_iff _).mpr fun socket found stream => absurd stream (noStream socket found)

theorem missing_effect {fd : Nat} (missing : getSocket s fd = none) (claim : Option TcpTuple) :
    s.Effect fd (OpensCarefully s fd claim) s := by
  refine (Net.Effect.of_same fd rfl rfl).congr (opensCarefully_of_not fun socket found => ?_)
  rw [missing] at found
  cases found

theorem socketListen_effect (s : Net) (fd : Nat) :
    s.Effect fd (OpensCarefully s fd none) (socketListen s fd).2 := by
  unfold socketListen
  split
  next missing =>
    exact missing_effect missing none
  next socket found =>
    obtain ⟨bound, here, inUse⟩ := getSocket_some found
    split
    next noStream =>
      refine (Net.Effect.of_same fd rfl rfl).congr (opensCarefully_of_not fun other same => ?_)
      rw [← Option.some.inj (found.symm.trans same)]
      exact noStream
    next stream =>
      have isStream := not_not.mp stream
      obtain ⟨full, failed⟩ | ⟨slot, after, conn, opened, claim, fresh⟩ :=
        tcpListen_cases s socket.localPort
      · rw [failed]
        exact lose_effect full found isStream (by rw [Socket.handle, ite_self])
          (setSocket_sockets _ _) rfl
      · rw [opened]
        exact fresh.effect claim found isStream (if_pos inUse) rfl

theorem tcpFreeSlot_congr {t : Net} (same : t.connections = s.connections) :
    tcpFreeSlot t = tcpFreeSlot s := by
  unfold tcpFreeSlot tcpAllocConn
  rw [same]
  cases (List.range maxTcpConnections).find? fun i => !(s.connections i).inUse <;> rfl

theorem readSockaddr_connections (s : Net) (addr : Nat) :
    (readSockaddr s addr).2.2.connections = s.connections := rfl

/-- The claim of a connection to the address that the caller points to. -/
def connectClaim (s : Net) (addr : Nat) : TcpTuple :=
  let remote := readSockaddr s addr
  (remote.1, remote.2.1, 49152 + remote.2.1 % 16384)

theorem socketConnect_effect (s : Net) (fd addr : Nat) :
    s.Effect fd (OpensCarefully s fd (some (connectClaim s addr))) (socketConnect s fd addr).2 := by
  unfold socketConnect
  split
  next missing =>
    exact missing_effect missing _
  next socket found =>
    obtain ⟨bound, here, inUse⟩ := getSocket_some found
    dsimp only
    split
    next stream =>
      obtain ⟨full, failed⟩ | ⟨slot, after, conn, opened, claim, fresh⟩ :=
        tcpConnect_cases (readSockaddr s addr).2.2 (readSockaddr s addr).1 (readSockaddr s addr).2.1
      · rw [failed]
        rw [tcpFreeSlot_congr (readSockaddr_connections s addr)] at full
        refine lose_effect full found stream ?_ (setSocket_sockets _ _) rfl
        rw [Socket.handle, ite_self]
      · rw [opened]
        have slotFree := fresh.found
        rw [tcpFreeSlot_congr (readSockaddr_connections s addr)] at slotFree
        have here : Opened s slot after conn :=
          ⟨slotFree, fresh.inside, fresh.free, fresh.inUse, fresh.sockets, fresh.connections⟩
        exact here.effect claim found stream (if_pos inUse) rfl
    next noStream =>
      refine Net.Effect.congr ?_ (opensCarefully_of_not fun other same => ?_)
      · subst here
        refine ⟨True, ?_, Iff.rfl⟩
        rw [setSocket_sockets]
        exact .alter _ bound rfl fun _ => rfl
      · rw [← Option.some.inj (found.symm.trans same)]
        exact noStream

/-- An operation that changes nothing but fields of the socket's connection that its claim
leaves out. -/
theorem touch_effect {fd : Nat} {socket : Socket} (found : getSocket s fd = some socket) {i : Nat}
    (mine : socket.conn = some i) (conn : TcpConn) (inUse : conn.inUse = (s.connections i).inUse)
    (claim : conn.claim = (s.connections i).claim) {after : Net}
    (sockets : after.sockets = s.sockets)
    (connections : after.connections = Function.update s.connections i conn) :
    s.Effect fd True after := by
  refine ⟨True, ?_, Iff.rfl⟩
  rw [sockets, connections]
  exact .touch i conn ((getSocket_points found).trans mine) inUse claim

theorem socketSend_effect (s : Net) (fd buf len : Nat) :
    s.Effect fd True (socketSend s fd buf len).2 := by
  unfold socketSend
  split
  next => exact .of_same fd rfl rfl
  next socket found =>
    split
    · exact .of_same fd rfl rfl
    · split
      next stream =>
        unfold tcpSend
        split
        next => exact .of_same fd rfl rfl
        next i mine =>
          split
          next => exact .of_same fd rfl rfl
          next established =>
            refine touch_effect found mine { s.connections i with
              seq := u32 ((s.connections i).seq + len % 65536) } rfl rfl ?_ ?_
            · rw [setConn_sockets, tcpSendPacket_sockets]
            · rw [setConn_connections, tcpSendPacket_connections]
      next =>
        split
        · exact .of_same fd rfl rfl
        · exact .of_same fd rfl rfl

theorem socketRecv_effect (s : Net) (fd buf len : Nat) :
    s.Effect fd True (socketRecv s fd buf len).2 := by
  unfold socketRecv
  split
  next => exact .of_same fd rfl rfl
  next socket found =>
    split
    next stream =>
      unfold tcpRecv
      split
      next => exact .of_same fd rfl rfl
      next i mine =>
        dsimp only
        split
        next => exact .of_same fd rfl rfl
        next pending =>
          exact touch_effect found mine { s.connections i with recvLen := 0 } rfl rfl rfl
            (setConn_connections _ _)
    next => exact .of_same fd rfl rfl

/-- A socket that points to a connection is a stream socket. -/
theorem getSocket_stream (kept : TablesKept s.sockets s.connections) {fd i : Nat}
    {socket : Socket} (found : getSocket s fd = some socket) (mine : socket.conn = some i) :
    socket.type = sockStream := by
  obtain ⟨-, rfl, -⟩ := getSocket_some found
  exact kept.streams fd i ((getSocket_points found).trans mine)

theorem socketClose_effect (kept : TablesKept s.sockets s.connections) (fd : Nat) :
    s.Effect fd True (socketClose s fd).2 := by
  unfold socketClose
  split
  next => exact .of_same fd rfl rfl
  next socket found =>
    obtain ⟨bound, -, -⟩ := getSocket_some found
    have points := getSocket_points found
    obtain ⟨sockets, freed, others⟩ := tcpClose_freed s socket.conn
    refine ⟨True, ?_, Iff.rfl⟩
    dsimp only
    split
    next stream =>
      rw [setSocket_sockets, sockets]
      refine .close _ bound rfl _ (fun i mine => ?_) fun i foreign => ?_
      · exact freed i (points.symm.trans mine)
      · exact others i fun mine => foreign (points.trans mine)
    next noStream =>
      rw [setSocket_sockets]
      refine .close _ bound rfl _ (fun i mine => ?_) fun i foreign => rfl
      exact absurd (getSocket_stream kept found (points.symm.trans mine)) noStream

theorem socketShutdown_effect (s : Net) (fd how : Nat) :
    s.Effect fd True (socketShutdown s fd how).2 := by
  unfold socketShutdown
  split
  next => exact .of_same fd rfl rfl
  next socket found =>
    have points := getSocket_points found
    obtain ⟨sockets, freed, others⟩ := tcpClose_freed s socket.conn
    split
    next shuts =>
      refine ⟨True, ?_, Iff.rfl⟩
      rw [sockets]
      refine .free _ (fun i mine => ?_) fun i foreign => ?_
      · exact freed i (points.symm.trans mine)
      · exact others i fun mine => foreign (points.trans mine)
    next => exact .of_same fd rfl rfl

/-- The calls that only read and write user memory. -/
def Net.TablesSame (s after : Net) : Prop :=
  after.sockets = s.sockets ∧ after.connections = s.connections

theorem Net.TablesSame.trans {second third : Net} (before : s.TablesSame second)
    (after : second.TablesSame third) : s.TablesSame third :=
  ⟨after.1.trans before.1, after.2.trans before.2⟩

theorem Net.TablesSame.effect {after : Net} (same : s.TablesSame after) (fd : Nat) :
    s.Effect fd True after := .of_same fd same.1 same.2

theorem read_tables (s : Net) (addr len : Nat) : s.TablesSame (s.read addr len).2 := ⟨rfl, rfl⟩

theorem write_tables (s : Net) (addr : Nat) (bytes : List Nat) :
    s.TablesSame (s.write addr bytes) := ⟨rfl, rfl⟩

theorem writeLength_tables (s : Net) (addrlen : Nat) (bytes : List Nat) :
    s.TablesSame (if addrlen ≠ 0 then s.write addrlen bytes else s) := by
  split
  · exact write_tables s addrlen bytes
  · exact ⟨rfl, rfl⟩

theorem writeSockaddr_tables (s : Net) (addr addrlen ip port : Nat) :
    s.TablesSame (writeSockaddr s addr addrlen ip port) := by
  rw [writeSockaddr]
  exact (((write_tables s _ _).trans (write_tables _ _ _)).trans (write_tables _ _ _)).trans
    (writeLength_tables _ _ _)

theorem socketGetsockopt_tables (s : Net) (fd optval optlen : Nat) :
    s.TablesSame (socketGetsockopt s fd optval optlen).2 := by
  unfold socketGetsockopt
  split
  · exact ⟨rfl, rfl⟩
  · split
    · dsimp only
      split
      · exact ((read_tables s optlen 4).trans (write_tables _ _ _)).trans (write_tables _ _ _)
      · exact read_tables s optlen 4
    · exact ⟨rfl, rfl⟩

theorem selectTest_tables (s : Net) (fds i : Nat) : s.TablesSame (selectTest s fds i).2 := by
  unfold selectTest
  split
  · exact read_tables s fds 4
  · exact ⟨rfl, rfl⟩

theorem selectRounds_tables (readfds writefds : Nat) (rounds : List Nat) (counted : Nat × Net) :
    counted.2.TablesSame (rounds.foldl (selectRound readfds writefds) counted).2 := by
  induction rounds generalizing counted with
  | nil => exact ⟨rfl, rfl⟩
  | cons i rest ih =>
      have round : counted.2.TablesSame (selectRound readfds writefds counted i).2 := by
        unfold selectRound
        split
        · exact ⟨rfl, rfl⟩
        · exact (selectTest_tables counted.2 readfds i).trans (selectTest_tables _ writefds i)
      exact round.trans (ih _)

def SocketCall.fd : SocketCall → Option Nat
  | .socket .. | .select .. => none
  | .bind fd .. | .listen fd .. | .accept fd .. | .connect fd .. | .send fd .. | .recv fd ..
  | .closesock fd | .shutdown fd .. | .getsockname fd .. | .getpeername fd .. | .setsockopt fd ..
  | .getsockopt fd .. => some fd

def CallCareful (s : Net) : SocketCall → Prop
  | .listen fd _ => OpensCarefully s fd none
  | .connect fd addr _ => OpensCarefully s fd (some (connectClaim s addr))
  | _ => True

theorem socketAccept_same (s : Net) (fd : Nat) : (socketAccept s fd).2 = s := by
  unfold socketAccept
  split
  · rfl
  · split <;> rfl

theorem socketSyscall_effect (kept : TablesKept s.sockets s.connections) (call : SocketCall) :
    ∃ fd, s.Effect fd (CallCareful s call) (socketSyscall s call).2 ∧
      ∀ own, call.fd = some own → own = fd := by
  have mine (fd own : Nat) (same : some fd = some own) : own = fd := (Option.some.inj same).symm
  cases call with
  | socket domain type protocol =>
      obtain ⟨fd, effect⟩ := socketCreate_effect s domain type
      exact ⟨fd, effect, fun own same => by cases same⟩
  | bind fd addr length => exact ⟨fd, socketBind_effect s fd addr, mine fd⟩
  | listen fd backlog => exact ⟨fd, socketListen_effect s fd, mine fd⟩
  | accept fd addr length =>
      have same := socketAccept_same s fd
      exact ⟨fd, .of_same fd (congrArg Net.sockets same) (congrArg Net.connections same), mine fd⟩
  | connect fd addr length => exact ⟨fd, socketConnect_effect s fd addr, mine fd⟩
  | send fd buf len flags => exact ⟨fd, socketSend_effect s fd buf len, mine fd⟩
  | recv fd buf len flags => exact ⟨fd, socketRecv_effect s fd buf len, mine fd⟩
  | closesock fd => exact ⟨fd, socketClose_effect kept fd, mine fd⟩
  | shutdown fd how => exact ⟨fd, socketShutdown_effect s fd how, mine fd⟩
  | getsockname fd addr length =>
      refine ⟨fd, Net.TablesSame.effect ?_ fd, mine fd⟩
      rw [socketSyscall, socketGetsockname]
      split
      · exact ⟨rfl, rfl⟩
      · exact writeSockaddr_tables _ _ _ _ _
  | getpeername fd addr length =>
      refine ⟨fd, Net.TablesSame.effect ?_ fd, mine fd⟩
      rw [socketSyscall, socketGetpeername]
      split
      · exact ⟨rfl, rfl⟩
      · split
        · exact ⟨rfl, rfl⟩
        · exact writeSockaddr_tables _ _ _ _ _
  | setsockopt fd level name value length =>
      refine ⟨fd, Net.TablesSame.effect ?_ fd, mine fd⟩
      rw [socketSyscall, socketSetsockopt]
      split <;> exact ⟨rfl, rfl⟩
  | getsockopt fd level name value length =>
      exact ⟨fd, (socketGetsockopt_tables s fd value length).effect fd, mine fd⟩
  | select count reads writes excepts timeout =>
      exact ⟨0, (selectRounds_tables reads writes _ (0, s)).effect 0, fun own same => by cases same⟩

end Calls

/-! What a segment does to them. -/

section Segments

variable {s : Net} {index : Nat} (srcIp : Nat) (packet : Bytes) (len : Nat)

theorem segmentTarget_live (target : segmentTarget s srcIp packet len = some index) :
    connLive s.connections index ∧
      (s.connections index).localPort = segmentDestPort packet := by
  obtain ⟨bound, inUse, ⟨-, -, localPort⟩ | ⟨-, localPort⟩⟩ := segmentTarget_cases target
  · exact ⟨⟨bound, inUse⟩, localPort⟩
  · exact ⟨⟨bound, inUse⟩, localPort⟩

def SegmentCareful (s : Net) (srcIp : Nat) (packet : Bytes) (len : Nat) : Prop :=
  ∀ i, segmentTarget s srcIp packet len = some i → (s.connections i).state = .listen →
    hasFlag (segmentFlags packet) tcpSyn →
    ∀ j, connClaims s.connections j ≠
      some (srcIp, segmentSrcPort packet, segmentDestPort packet)

theorem tcpDispatch_connections :
    (tcpDispatch s srcIp packet len index).connections = Function.update s.connections index
      ((tcpDispatch s srcIp packet len index).connections index) := by
  funext i
  by_cases same : i = index
  · rw [same, Function.update_self]
  · rw [Function.update_of_ne same, tcpDispatch_other srcIp packet len same]

theorem TcpConn.claim_congr {conn other : TcpConn} (inUse : other.inUse = conn.inUse)
    (listens : other.state = .listen ↔ conn.state = .listen) (tuple : other.tuple = conn.tuple) :
    other.claim = conn.claim := by
  unfold TcpConn.claim
  rw [inUse, tuple]
  simp only [ne_eq, listens]

/-- A SYN gives a listening connection the sender's address and port. -/
theorem dispatch_syn (listens : (s.connections index).state = .listen)
    (syn : hasFlag (segmentFlags packet) tcpSyn) :
    let conn := (tcpDispatch s srcIp packet len index).connections index
    conn.inUse = (s.connections index).inUse ∧ conn.state ≠ .listen ∧
      conn.tuple = (srcIp, segmentSrcPort packet, (s.connections index).localPort) := by
  intro conn
  have eq : conn = { s.connections index with
      remoteIp := srcIp, remotePort := segmentSrcPort packet
      ack := u32 (segmentSeq packet + 1), seq := u32 (2000 + 1), state := .synReceived } := by
    simp only [conn, tcpDispatch, listens, tcpReceiveListen, if_pos syn, setConn_same]
  rw [eq]
  exact ⟨rfl, by simp, rfl⟩

/-- Any other segment leaves what a connection claims. -/
theorem dispatch_other
    (other : ¬ ((s.connections index).state = .listen ∧ hasFlag (segmentFlags packet) tcpSyn)) :
    let conn := (tcpDispatch s srcIp packet len index).connections index
    conn.inUse = (s.connections index).inUse ∧ conn.claim = (s.connections index).claim := by
  intro conn
  suffices same : conn.inUse = (s.connections index).inUse ∧
      (conn.state = .listen ↔ (s.connections index).state = .listen) ∧
      conn.tuple = (s.connections index).tuple from
    ⟨same.1, TcpConn.claim_congr same.1 same.2.1 same.2.2⟩
  unfold conn tcpDispatch
  split
  next listens =>
    rw [tcpReceiveListen, if_neg fun syn => other ⟨listens, syn⟩]
    exact ⟨rfl, Iff.rfl, rfl⟩
  next opening =>
    unfold tcpReceiveSynSent
    split
    · simp [opening, TcpConn.tuple]
    · exact ⟨rfl, Iff.rfl, rfl⟩
  next opening =>
    unfold tcpReceiveSynReceived
    split
    · simp [opening, TcpConn.tuple]
    · exact ⟨rfl, Iff.rfl, rfl⟩
  next established =>
    obtain same | ⟨dataLen, same⟩ | same := tcpReceiveEstablished_cases packet len
      (segmentSeq packet) (segmentFlags packet)
    · rw [same]
      simp [established, TcpConn.tuple]
    · rw [same]
      simp [established, TcpConn.tuple]
    · rw [same]
      exact ⟨rfl, Iff.rfl, rfl⟩
  next => exact ⟨rfl, Iff.rfl, rfl⟩

theorem tcpDispatch_sockets :
    (tcpDispatch s srcIp packet len index).sockets = s.sockets := by
  unfold tcpDispatch
  split
  · unfold tcpReceiveListen
    split <;> simp
  · unfold tcpReceiveSynSent
    split <;> simp
  · unfold tcpReceiveSynReceived
    split <;> simp
  · obtain same | ⟨dataLen, same⟩ | same := tcpReceiveEstablished_cases packet len
      (segmentSeq packet) (segmentFlags packet)
    · rw [same]
      simp
    · rw [same]
      simp
    · rw [same]
  · rfl

theorem dispatch_kept (kept : TablesKept s.sockets s.connections)
    (target : segmentTarget s srcIp packet len = some index)
    (careful : SegmentCareful s srcIp packet len) :
    TablesKept (tcpDispatch s srcIp packet len index).sockets
      (tcpDispatch s srcIp packet len index).connections := by
  obtain ⟨⟨inside, inUse⟩, localPort⟩ := segmentTarget_live srcIp packet len target
  rw [tcpDispatch_sockets, tcpDispatch_connections]
  by_cases accepts : (s.connections index).state = .listen ∧ hasFlag (segmentFlags packet) tcpSyn
  · obtain ⟨listens, syn⟩ := accepts
    obtain ⟨same, -, tuple⟩ := dispatch_syn srcIp packet len listens syn
    have fresh := careful index target listens syn
    refine ⟨kept.owned.shrink fun j => (connLive_touched same).mp, ?_, kept.streams⟩
    rw [connClaims_update inside]
    refine kept.distinct.put fun claim here other _ => ?_
    have isTuple : claim = (srcIp, segmentSrcPort packet, segmentDestPort packet) := by
      unfold TcpConn.claim at here
      split at here
      next =>
        rw [← Option.some.inj here, tuple, localPort]
      next => cases here
    rw [isTuple]
    exact fresh other
  · obtain ⟨same, claim⟩ := dispatch_other srcIp packet len accepts
    refine ⟨kept.owned.shrink fun j => (connLive_touched same).mp, ?_, kept.streams⟩
    rw [connClaims_touched claim]
    exact kept.distinct

theorem dispatch_exact
    (target : segmentTarget s srcIp packet len = some index)
    (sound : TablesSound (tcpDispatch s srcIp packet len index).sockets
      (tcpDispatch s srcIp packet len index).connections) :
    SegmentCareful s srcIp packet len := by
  intro i there listens syn j claims
  obtain rfl := Option.some.inj (target.symm.trans there)
  obtain ⟨⟨inside, inUse⟩, localPort⟩ := segmentTarget_live srcIp packet len target
  obtain ⟨same, active, tuple⟩ := dispatch_syn srcIp packet len listens syn
  have other : j ≠ index := by
    rintro rfl
    exact (connClaims_some.mp claims).2.1 listens
  have apart := sound.apart
  rw [tcpDispatch_connections, connClaims_update inside, TcpConn.claim,
    if_pos ⟨same.trans inUse, active⟩, tuple, localPort] at apart
  exact apart.fresh other claims

end Segments

/-! Runs. -/

inductive SocketEvent where
  | call (call : SocketCall)
  | segment (srcIp : Nat) (packet : Bytes) (len : Nat)
  | store (memory : Nat → Nat)

def socketStep (s : Net) : SocketEvent → Net
  | .call call => (socketSyscall s call).2
  | .segment srcIp packet len => (tcpReceive s srcIp len).value packet
  | .store memory => { s with user := { s.user with memory } }

def SocketCareful (s : Net) : SocketEvent → Prop
  | .call call => CallCareful s call
  | .segment srcIp packet len => SegmentCareful s srcIp packet len
  | .store _ => True

structure SocketSound (s : Net) (event : SocketEvent) : Prop where
  tables : TablesSound (socketStep s event).sockets (socketStep s event).connections
  isolated : ∀ call fd, event = .call call → call.fd = some fd → ∀ other, other ≠ fd →
    (socketStep s event).sockets other = s.sockets other ∧
      ∀ i, sockPoints s.sockets other = some i →
        (socketStep s event).connections i = s.connections i

def SocketKept (s : Net) : Prop := TablesKept s.sockets s.connections

theorem segment_cases (s : Net) (srcIp : Nat) (packet : Bytes) (len : Nat) :
    segmentTarget s srcIp packet len = none ∧ socketStep s (.segment srcIp packet len) = s ∨
      ∃ index, segmentTarget s srcIp packet len = some index ∧
        socketStep s (.segment srcIp packet len) = tcpDispatch s srcIp packet len index := by
  rw [socketStep, tcpReceive_value]
  cases target : segmentTarget s srcIp packet len with
  | none => exact Or.inl ⟨rfl, rfl⟩
  | some index => exact Or.inr ⟨index, rfl, rfl⟩

theorem socketStep_kept {s : Net} {event : SocketEvent} (kept : SocketKept s)
    (careful : SocketCareful s event) : SocketKept (socketStep s event) := by
  cases event with
  | call call =>
      obtain ⟨fd, ⟨met, effect, iff⟩, -⟩ := socketSyscall_effect kept call
      exact effect.kept kept (iff.mpr careful)
  | segment srcIp packet len =>
      obtain ⟨-, same⟩ | ⟨index, target, same⟩ := segment_cases s srcIp packet len
      · rw [same]
        exact kept
      · rw [same]
        exact dispatch_kept srcIp packet len kept target careful
  | store memory => exact kept

theorem socketStep_sound {s : Net} {event : SocketEvent} (kept : SocketKept s)
    (careful : SocketCareful s event) : SocketSound s event := by
  refine ⟨(socketStep_kept kept careful).sound, ?_⟩
  rintro call fd rfl own other different
  obtain ⟨_, ⟨met, effect, iff⟩, mine⟩ := socketSyscall_effect kept call
  obtain rfl := mine fd own
  exact effect.isolated kept (iff.mpr careful) different

theorem socketStep_exact {s : Net} {event : SocketEvent} (kept : SocketKept s)
    (sound : SocketSound s event) : SocketCareful s event := by
  cases event with
  | call call =>
      obtain ⟨fd, ⟨met, effect, iff⟩, -⟩ := socketSyscall_effect kept call
      exact iff.mp (effect.exact kept sound.tables)
  | segment srcIp packet len =>
      obtain ⟨missing, -⟩ | ⟨index, target, same⟩ := segment_cases s srcIp packet len
      · intro i there
        rw [missing] at there
        cases there
      · have tables := sound.tables
        rw [same] at tables
        exact dispatch_exact srcIp packet len target tables
  | store memory => trivial

theorem socketStart_kept (netifIp : Nat) (memory : Nat → Nat) :
    SocketKept (Net.start netifIp memory) := by
  have noPointer (fd : Nat) : sockPoints (Net.start netifIp memory).sockets fd = none := by
    unfold sockPoints
    split <;> rfl
  have noClaim (i : Nat) : connClaims (Net.start netifIp memory).connections i = none := by
    unfold connClaims
    split <;> rfl
  refine ⟨⟨fun fd other i here => ?_, fun i used => absurd used.2 Bool.false_ne_true⟩,
    fun i j claim here => ?_, fun fd i here => ?_⟩
  · rw [noPointer] at here
    cases here
  · rw [noClaim] at here
    cases here
  · rw [noPointer] at here
    cases here

/-- In a run from boot, every call and segment keeps connections with their sockets and apart
from each other if and only if all of them are careful. -/
theorem sockets_run_iff (netifIp : Nat) (memory : Nat → Nat) (events : List SocketEvent) :
    Along socketStep SocketSound (Net.start netifIp memory) events ↔
      Along socketStep SocketCareful (Net.start netifIp memory) events :=
  along_congr SocketKept (fun _ _ kept careful => socketStep_kept kept careful)
    (fun _ _ kept => ⟨socketStep_exact kept, socketStep_sound kept⟩)
    (socketStart_kept netifIp memory) events

/-- A `sockaddr_in` for port 80 of 10.0.0.2 at each multiple of 16. -/
def httpSockaddr (addr : Nat) : Nat := [2, 0, 0, 80, 10, 0, 0, 2].getD (addr % 16) 0

/-- A socket that is shut down keeps its pointer, and the slot goes to the next socket that
connects: two sockets have one connection, and closing the first closes it for the second.
Two sockets that connect to one address have one claim. -/
theorem shutdown_connection_shared :
    let dial (fd : Nat) : List SocketEvent :=
      [.call (.socket afInet sockStream 0), .call (.connect fd 4096 16)]
    let boot := Net.start 0x0A00020F httpSockaddr
    let events := dial 0 ++ [.call (.shutdown 0 2)] ++ dial 1
    let s := events.foldl socketStep boot
    let closed := socketStep s (.call (.closesock 0))
    let twins := (dial 0 ++ dial 1).foldl socketStep boot
    sockPoints s.sockets 0 = some 0 ∧ sockPoints s.sockets 1 = some 0 ∧
      (s.connections 0).inUse = true ∧ (closed.connections 0).inUse = false ∧
      sockPoints closed.sockets 1 = some 0 ∧
      connClaims twins.connections 0 = some (0x0A000002, 80, 49232) ∧
      connClaims twins.connections 1 = some (0x0A000002, 80, 49232) ∧
      ¬ Along socketStep SocketSound boot events := by
  intro dial boot events s closed twins
  have first : sockPoints s.sockets 0 = some 0 := by decide
  have second : sockPoints s.sockets 1 = some 0 := by decide
  have used : (s.connections 0).inUse = true := by decide
  refine ⟨first, second, used, by decide, by decide, by decide, by decide, fun sound => ?_⟩
  have last : SocketSound _ (.call (.connect 1 4096 16)) := sound.2.2.2.2.1
  have unique : ∃! fd, sockPoints s.sockets fd = some 0 := last.tables.owned 0 ⟨by decide, used⟩
  exact absurd (unique.unique first second) (by decide)

end ZurichOS
