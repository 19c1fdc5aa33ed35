import ZurichOS.SocketCore

set_option linter.all false

/-!
What the socket calls touch through user pointers, and when that is covered by
`validate_user_ptr`.
-/

namespace ZurichOS

open Words

def UserEvent.Touches (event : UserEvent) (byte : Nat) : Prop :=
  match event with
  | .validated _ _ => False
  | .read addr len | .write addr len => ∃ i < len, byte = u32 (addr + i)

/-- Every byte read or written lies in a range that was accepted during the call. -/
def Mediated (m : Mm) (trace : List UserEvent) : Prop :=
  ∀ event ∈ trace, ∀ byte, event.Touches byte →
    byte < kernelBase ∧ ∃ ptr size, .validated ptr size ∈ trace ∧
      validateUserPtr m ptr size = true ∧ ptr ≤ byte ∧ byte < ptr + size

def UserEvent.length : UserEvent → Nat
  | .validated _ _ => 0
  | .read _ len | .write _ len => len

theorem UserEvent.touches_iff (event : UserEvent) :
    (∃ byte, event.Touches byte) ↔ 0 < event.length := by
  cases event with
  | validated ptr size => simp [Touches, length]
  | read addr len | write addr len =>
      constructor
      · rintro ⟨_, _, below, _⟩
        exact Nat.zero_lt_of_lt below
      · exact fun positive => ⟨_, 0, positive, rfl⟩

def UserEvent.Access : UserEvent → Prop
  | .validated _ _ => False
  | .read _ _ | .write _ _ => True

/-- Without checks a call is mediated only if it touches nothing. -/
theorem mediated_of_access (m : Mm) {trace : List UserEvent}
    (unchecked : ∀ event ∈ trace, event.Access) :
    Mediated m trace ↔ ∀ event ∈ trace, event.length = 0 := by
  constructor
  · intro mediated event member
    apply Decidable.byContradiction
    intro positive
    obtain ⟨byte, touched⟩ := event.touches_iff.mpr (Nat.pos_of_ne_zero positive)
    obtain ⟨_, _, _, checked, _⟩ := mediated event member byte touched
    exact unchecked _ checked
  · intro quiet event member byte touched
    have positive := event.touches_iff.mp ⟨byte, touched⟩
    exact absurd (quiet event member) (by omega)

/-- From `before` to `after` the kernel made some accesses and no check, and touched a
byte exactly if `touches`. -/
def Accesses (before after : Net) (touches : Prop) : Prop :=
  ∃ events, after.user.trace = before.user.trace ++ events ∧ (∀ event ∈ events, event.Access) ∧
    ((∃ event ∈ events, 0 < event.length) ↔ touches)

theorem accesses_none {before after : Net} (same : after.user = before.user) :
    Accesses before after False :=
  ⟨[], by rw [same, List.append_nil], by simp, by simp⟩

theorem Accesses.trans {first second third : Net} {left right : Prop}
    (before : Accesses first second left) (after : Accesses second third right) :
    Accesses first third (left ∨ right) := by
  obtain ⟨events, appended, access, touched⟩ := before
  obtain ⟨more, appendedMore, accessMore, touchedMore⟩ := after
  refine ⟨events ++ more, by rw [appendedMore, appended, List.append_assoc], ?_, ?_⟩
  · exact List.forall_mem_append.mpr ⟨access, accessMore⟩
  · rw [← touched, ← touchedMore]
    simp only [List.mem_append, or_and_right, exists_or]

theorem Accesses.congr {before after : Net} {left right : Prop}
    (accesses : Accesses before after left) (same : left ↔ right) :
    Accesses before after right := by
  rwa [← propext same]

theorem accesses_read (s : Net) (addr len : Nat) : Accesses s (s.read addr len).2 (0 < len) :=
  ⟨[.read addr len], rfl, by simp [UserEvent.Access], by simp [UserEvent.length]⟩

theorem accesses_write (s : Net) (addr : Nat) (bytes : List Nat) :
    Accesses s (s.write addr bytes) (0 < bytes.length) :=
  ⟨[.write addr bytes.length], rfl, by simp [UserEvent.Access], by simp [UserEvent.length]⟩

theorem Accesses.quiet {first second third : Net} {touches : Prop}
    (before : Accesses first second touches) (same : third.user = second.user) :
    Accesses first third touches :=
  (before.trans (accesses_none same)).congr (iff_of_eq (or_false touches))

theorem readSockaddr_accesses (s : Net) (addr : Nat) :
    Accesses s (readSockaddr s addr).2.2 True :=
  ((accesses_read s (addr + 4) 4).trans (accesses_read _ (addr + 2) 2)).congr (by simp)

theorem toLittleEndian_length (value count : Nat) :
    (toLittleEndian value count).length = count := by
  induction count generalizing value with
  | zero => rfl
  | succ count ih => rw [toLittleEndian, List.length_cons, ih]

theorem writeSockaddr_accesses (s : Net) (addr addrlen ip port : Nat) :
    Accesses s (writeSockaddr s addr addrlen ip port) True := by
  have first := accesses_write s addr (toLittleEndian afInet 2)
  rw [toLittleEndian_length] at first
  have head := (first.trans (accesses_write _ (addr + 2) (toBigEndian port 2))).trans
    (accesses_write _ (addr + 4) (toBigEndian ip 4))
  unfold writeSockaddr
  dsimp only
  split
  · exact (head.trans (accesses_write _ addrlen (toLittleEndian 16 4))).congr (by simp)
  · exact head.congr (by simp)

theorem tcpAllocConn_user {s after : Net} {index : Nat}
    (allocated : tcpAllocConn s = some (index, after)) : after.user = s.user := by
  simp only [tcpAllocConn, Option.bind_eq_bind, Option.bind_eq_some_iff, Option.pure_def,
    Option.some.injEq, Prod.mk.injEq] at allocated
  obtain ⟨_, _, _, rfl⟩ := allocated
  rfl

theorem tcpConnect_user {s after : Net} {destIp destPort index : Nat}
    (connected : tcpConnect s destIp destPort = some (index, after)) : after.user = s.user := by
  simp only [tcpConnect, Option.bind_eq_bind, Option.bind_eq_some_iff, Option.pure_def,
    Option.some.injEq, Prod.mk.injEq] at connected
  obtain ⟨⟨index, taken⟩, allocated, _, rfl⟩ := connected
  have taken := tcpAllocConn_user allocated
  exact taken

theorem tcpListen_user {s after : Net} {port index : Nat}
    (listening : tcpListen s port = some (index, after)) : after.user = s.user := by
  simp only [tcpListen, Option.bind_eq_bind, Option.bind_eq_some_iff, Option.pure_def,
    Option.some.injEq, Prod.mk.injEq] at listening
  obtain ⟨⟨index, taken⟩, allocated, _, rfl⟩ := listening
  have taken := tcpAllocConn_user allocated
  exact taken

theorem tcpClose_user (s : Net) (conn : Option Nat) : (tcpClose s conn).user = s.user := by
  cases conn with
  | none => rfl
  | some index =>
      simp only [tcpClose]
      split <;> rfl

/-! The bytes a call touches, by its arguments and the tables. -/

def SendTouches (s : Net) (socket : Socket) (buf len : Nat) : Prop :=
  socket.connected = true ∧
    (socket.type = sockStream ∧ buf ≠ 0 ∧
        (∃ index, socket.conn = some index ∧ (s.connections index).state = .established) ∨
      socket.type = sockDgram) ∧ len % 65536 ≠ 0

def RecvTouches (s : Net) (socket : Socket) (len : Nat) : Prop :=
  socket.type = sockStream ∧ len % 65536 ≠ 0 ∧
    ∃ index, socket.conn = some index ∧ (s.connections index).recvBuf ≠ 0 ∧
      (s.connections index).recvLen ≠ 0

def TouchesUser (s : Net) : SocketCall → Prop
  | .bind sockfd _ _ | .connect sockfd _ _ | .getsockname sockfd _ _ => getSocket s sockfd ≠ none
  | .send sockfd buf len _ => ∃ socket, getSocket s sockfd = some socket ∧
      SendTouches s socket buf len
  | .recv sockfd _ len _ => ∃ socket, getSocket s sockfd = some socket ∧
      RecvTouches s socket len
  | .getpeername sockfd _ _ => ∃ socket, getSocket s sockfd = some socket ∧
      socket.connected = true
  | .getsockopt sockfd _ _ optval optlen => getSocket s sockfd ≠ none ∧ optval ≠ 0 ∧ optlen ≠ 0
  | .select nfds readfds writefds _ _ => (readfds ≠ 0 ∨ writefds ≠ 0) ∧
      ∃ i < selectCount nfds, getSocket s i ≠ none
  | .socket _ _ _ | .listen _ _ | .accept _ _ _ | .closesock _ | .shutdown _ _
  | .setsockopt _ _ _ _ _ => False

theorem tcpSend_accesses (s : Net) (conn : Option Nat) (buf len : Nat) :
    Accesses s (tcpSend s conn buf len).2
      (buf ≠ 0 ∧ (∃ index, conn = some index ∧ (s.connections index).state = .established) ∧
        len ≠ 0) := by
  cases conn with
  | none => exact (accesses_none rfl).congr (by simp)
  | some index =>
      simp only [tcpSend]
      split
      · rename_i closed
        exact (accesses_none rfl).congr (by simp [closed])
      · rename_i established
        have established := Decidable.of_not_not established
        by_cases copied : 0 < len ∧ buf ≠ 0
        · simp only [tcpSendPacket, if_pos copied]
          refine ((accesses_read s buf len).quiet rfl).congr ?_
          simp [established, copied.2, Nat.pos_iff_ne_zero]
        · simp only [tcpSendPacket, if_neg copied]
          refine (accesses_none rfl).congr ?_
          simp only [established, Option.some.injEq, exists_eq_left', true_and, false_iff]
          omega

theorem udpSend_accesses (s : Net) (destIp srcPort destPort data len : Nat) :
    Accesses s (udpSend s destIp srcPort destPort data len).2 (len ≠ 0) := by
  refine ((accesses_read s data (if 1492 < len then 1492 else len)).quiet rfl).congr ?_
  split <;> omega

theorem socketSend_accesses (s : Net) (fd buf len : Nat) :
    Accesses s (socketSend s fd buf len).2
      (∃ socket, getSocket s fd = some socket ∧ SendTouches s socket buf len) := by
  unfold socketSend
  split
  · rename_i absent
    exact (accesses_none rfl).congr (by simp [absent])
  rename_i socket found
  simp only [found, Option.some.injEq, exists_eq_left', SendTouches]
  split
  · rename_i unconnected
    exact (accesses_none rfl).congr (by simp_all)
  rename_i connected
  have connected : socket.connected = true := by simpa using connected
  split
  · rename_i stream
    have datagram : socket.type ≠ sockDgram := by simp [stream]
    refine (tcpSend_accesses s socket.conn buf (len % 65536)).congr ?_
    simp [connected, stream, and_assoc]
  split
  · rename_i stream datagram
    refine (udpSend_accesses s _ _ _ buf (len % 65536)).congr ?_
    simp [connected, datagram]
  · rename_i stream datagram
    exact (accesses_none rfl).congr (by simp [stream, datagram])

theorem socketRecv_accesses (s : Net) (fd buf len : Nat) :
    Accesses s (socketRecv s fd buf len).2
      (∃ socket, getSocket s fd = some socket ∧ RecvTouches s socket len) := by
  unfold socketRecv
  split
  · rename_i absent
    exact (accesses_none rfl).congr (by simp [absent])
  rename_i socket found
  simp only [found, Option.some.injEq, exists_eq_left', RecvTouches]
  split
  · rename_i stream
    simp only [stream, true_and]
    cases conn : socket.conn with
    | none => exact (accesses_none rfl).congr (by simp)
    | some index =>
        simp only [tcpRecv, Option.some.injEq, exists_eq_left']
        split
        · rename_i empty
          refine (accesses_none rfl).congr ⟨False.elim, ?_⟩
          rintro ⟨_, buffer, length⟩
          exact empty.elim buffer length
        · rename_i filled
          refine ((accesses_write s buf _).quiet rfl).congr ?_
          rw [List.length_map, List.length_range]
          split <;> omega
  · rename_i stream
    exact (accesses_none rfl).congr (by simp [stream])

theorem socketBind_accesses (s : Net) (fd addr : Nat) :
    Accesses s (socketBind s fd addr).2 (getSocket s fd ≠ none) := by
  unfold socketBind
  split
  · rename_i absent
    exact (accesses_none rfl).congr (by simp [absent])
  · rename_i socket found
    exact ((readSockaddr_accesses s addr).quiet rfl).congr (by simp [found])

theorem socketConnect_accesses (s : Net) (fd addr : Nat) :
    Accesses s (socketConnect s fd addr).2 (getSocket s fd ≠ none) := by
  unfold socketConnect
  split
  · rename_i absent
    exact (accesses_none rfl).congr (by simp [absent])
  rename_i socket found
  have read := (readSockaddr_accesses s addr).congr
    (show True ↔ getSocket s fd ≠ none by simp [found])
  dsimp only
  split
  · split
    · exact read.quiet rfl
    · rename_i index after connected
      have kept := tcpConnect_user connected
      exact read.quiet kept
  · exact read.quiet rfl

theorem socketListen_user (s : Net) (fd : Nat) : (socketListen s fd).2.user = s.user := by
  unfold socketListen
  split
  · rfl
  split
  · rfl
  split
  · rfl
  · rename_i index after listening
    have kept := tcpListen_user listening
    exact kept

theorem socketAccept_user (s : Net) (fd : Nat) : (socketAccept s fd).2.user = s.user := by
  unfold socketAccept
  split
  · rfl
  · split <;> rfl

theorem socketCreate_user (s : Net) (domain type : Nat) :
    (socketCreate s domain type).2.user = s.user := by
  unfold socketCreate
  split
  · rfl
  split
  · rfl
  split <;> rfl

theorem socketClose_user (s : Net) (fd : Nat) : (socketClose s fd).2.user = s.user := by
  unfold socketClose
  split
  · rfl
  dsimp only
  split
  · exact tcpClose_user s _
  · rfl

theorem socketShutdown_user (s : Net) (fd how : Nat) :
    (socketShutdown s fd how).2.user = s.user := by
  unfold socketShutdown
  split
  · rfl
  split
  · exact tcpClose_user s _
  · rfl

theorem socketGetpeername_accesses (s : Net) (fd addr addrlen : Nat) :
    Accesses s (socketGetpeername s fd addr addrlen).2
      (∃ socket, getSocket s fd = some socket ∧ socket.connected = true) := by
  unfold socketGetpeername
  split
  · rename_i absent
    exact (accesses_none rfl).congr (by simp [absent])
  rename_i socket found
  split
  · rename_i unconnected
    exact (accesses_none rfl).congr (by simp_all)
  · rename_i connected
    exact (writeSockaddr_accesses s addr addrlen _ _).congr (by simp_all)

theorem socketGetsockname_accesses (s : Net) (fd addr addrlen : Nat) :
    Accesses s (socketGetsockname s fd addr addrlen).2 (getSocket s fd ≠ none) := by
  unfold socketGetsockname
  split
  · rename_i absent
    exact (accesses_none rfl).congr (by simp [absent])
  · rename_i socket found
    exact (writeSockaddr_accesses s addr addrlen _ _).congr (by simp [found])

theorem socketSetsockopt_user (s : Net) (fd : Nat) : (socketSetsockopt s fd).2.user = s.user := by
  unfold socketSetsockopt
  split <;> rfl

theorem socketGetsockopt_accesses (s : Net) (fd optval optlen : Nat) :
    Accesses s (socketGetsockopt s fd optval optlen).2
      (getSocket s fd ≠ none ∧ optval ≠ 0 ∧ optlen ≠ 0) := by
  unfold socketGetsockopt
  split
  · rename_i absent
    exact (accesses_none rfl).congr (by simp [absent])
  rename_i socket found
  split
  · rename_i given
    have read := accesses_read s optlen 4
    dsimp only
    split
    · refine ((read.trans (accesses_write _ optval (toLittleEndian 0 4))).trans
        (accesses_write _ optlen (toLittleEndian 4 4))).congr ?_
      simp [found, given]
    · exact read.congr (by simp [found, given])
  · rename_i missing
    exact (accesses_none rfl).congr (by simp [missing])

theorem selectTest_accesses (s : Net) (fds i : Nat) :
    Accesses s (selectTest s fds i).2 (fds ≠ 0) ∧ (selectTest s fds i).2.sockets = s.sockets := by
  unfold selectTest
  split
  · rename_i given
    exact ⟨(accesses_read s fds 4).congr (by simp [given]), rfl⟩
  · rename_i missing
    exact ⟨(accesses_none rfl).congr (by simpa using missing), rfl⟩

theorem getSocket_congr {s t : Net} (same : s.sockets = t.sockets) (fd : Nat) :
    getSocket s fd = getSocket t fd := by
  rw [getSocket, getSocket, same]

theorem selectRound_accesses (readfds writefds : Nat) (counted : Nat × Net) (i : Nat) :
    Accesses counted.2 (selectRound readfds writefds counted i).2
        (getSocket counted.2 i ≠ none ∧ (readfds ≠ 0 ∨ writefds ≠ 0)) ∧
      (selectRound readfds writefds counted i).2.sockets = counted.2.sockets := by
  unfold selectRound
  split
  · rename_i absent
    exact ⟨(accesses_none rfl).congr (by simp [absent]), rfl⟩
  · rename_i socket found
    obtain ⟨reads, readSockets⟩ := selectTest_accesses counted.2 readfds i
    obtain ⟨writes, writeSockets⟩ := selectTest_accesses
      (selectTest counted.2 readfds i).2 writefds i
    exact ⟨(reads.trans writes).congr (by simp [found]), writeSockets.trans readSockets⟩

theorem selectRounds_accesses (readfds writefds : Nat) (rounds : List Nat) (counted : Nat × Net) :
    Accesses counted.2 (rounds.foldl (selectRound readfds writefds) counted).2
      (∃ i ∈ rounds, getSocket counted.2 i ≠ none ∧ (readfds ≠ 0 ∨ writefds ≠ 0)) := by
  induction rounds generalizing counted with
  | nil => exact (accesses_none rfl).congr (by simp)
  | cons i rest ih =>
      obtain ⟨round, sockets⟩ := selectRound_accesses readfds writefds counted i
      have later := ih (selectRound readfds writefds counted i)
      simp only [getSocket_congr sockets] at later
      refine (round.trans later).congr ?_
      simp only [List.mem_cons, exists_eq_or_imp]

theorem socketSelect_accesses (s : Net) (nfds readfds writefds : Nat) :
    Accesses s (socketSelect s nfds readfds writefds).2
      ((readfds ≠ 0 ∨ writefds ≠ 0) ∧ ∃ i < selectCount nfds, getSocket s i ≠ none) := by
  refine (selectRounds_accesses readfds writefds (List.range (selectCount nfds)) (0, s)).congr ?_
  simp only [List.mem_range]
  constructor
  · rintro ⟨i, below, found, given⟩
    exact ⟨given, i, below, found⟩
  · rintro ⟨given, i, below, found⟩
    exact ⟨i, below, found, given⟩

theorem socketSyscall_accesses (s : Net) (call : SocketCall) :
    Accesses s (socketSyscall s call).2 (TouchesUser s call) := by
  cases call with
  | socket domain type _ => exact accesses_none (socketCreate_user s domain type)
  | bind sockfd addr _ => exact socketBind_accesses s sockfd addr
  | listen sockfd _ => exact accesses_none (socketListen_user s sockfd)
  | accept sockfd _ _ => exact accesses_none (socketAccept_user s sockfd)
  | connect sockfd addr _ => exact socketConnect_accesses s sockfd addr
  | send sockfd buf len _ => exact socketSend_accesses s sockfd buf len
  | recv sockfd buf len _ => exact socketRecv_accesses s sockfd buf len
  | closesock sockfd => exact accesses_none (socketClose_user s sockfd)
  | shutdown sockfd how => exact accesses_none (socketShutdown_user s sockfd how)
  | getsockname sockfd addr addrlen => exact socketGetsockname_accesses s sockfd addr addrlen
  | getpeername sockfd addr addrlen => exact socketGetpeername_accesses s sockfd addr addrlen
  | setsockopt sockfd _ _ _ _ => exact accesses_none (socketSetsockopt_user s sockfd)
  | getsockopt sockfd _ _ optval optlen => exact socketGetsockopt_accesses s sockfd optval optlen
  | select nfds readfds writefds _ _ => exact socketSelect_accesses s nfds readfds writefds

/-- No socket call checks its pointers: it is mediated exactly when it touches no byte
through them. -/
theorem socketCall_mediated_iff (m : Mm) (s : Net) (call : SocketCall) :
    Mediated m (s.call call).2.user.trace ↔ ¬ TouchesUser s call := by
  obtain ⟨events, appended, access, touched⟩ :=
    socketSyscall_accesses { s with user := { s.user with trace := [] } } call
  rw [Net.call, appended, List.nil_append, mediated_of_access m access]
  have same : TouchesUser { s with user := { s.user with trace := [] } } call ↔
      TouchesUser s call := by
    cases call <;> rfl
  rw [← same, ← touched]
  simp only [not_exists, not_and, Nat.pos_iff_ne_zero, ne_eq, not_not]

/-- `getsockname` stores into the kernel half at the program's word. -/
theorem getsockname_writes_kernel :
    let s := (Net.start 0x0A00020F fun _ => 0xFF).call (.socket 2 1 0)
    let after := s.2.call (.getsockname 0 0xC0100000 0)
    s.1 = 0 ∧ after.1 = 0 ∧ after.2.user.memory 0xC0100000 = 2 ∧
      ∀ m, ¬ Mediated m after.2.user.trace := by
  refine ⟨by decide, by decide, by decide, fun m mediated => ?_⟩
  have below := (mediated (.write 0xC0100000 2) (by decide) 0xC0100000 ⟨0, by decide, rfl⟩).1
  exact absurd below (by decide)

end ZurichOS
