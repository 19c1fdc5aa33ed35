import ZurichOS.SyscallCore

/-!
The socket system calls of `kernel/syscall/syscall_net.c` with the socket layer of
`services/net/socket.c` and the parts of `tcp.c` and `udp.c` it calls.  The
handlers hand their arguments on as they are, so a call is named by its handler's
arguments and carried out by the socket layer.
-/

namespace ZurichOS

open Words

abbrev maxSockets : Nat := 32
abbrev maxTcpConnections : Nat := 16
abbrev sockStream : Nat := 1
abbrev sockDgram : Nat := 2
abbrev afInet : Nat := 2
abbrev ipProtoTcp : Nat := 6
abbrev ipProtoUdp : Nat := 17

inductive TcpState where
  | closed | listen | synSent | synReceived | established | finWait1 | finWait2
  | closeWait | closing | lastAck | timeWait
  deriving DecidableEq

structure TcpConn where
  localIp : Nat
  remoteIp : Nat
  localPort : Nat
  remotePort : Nat
  seq : Nat
  ack : Nat
  state : TcpState
  recvBuf : Nat
  recvLen : Nat
  inUse : Bool

structure Socket where
  type : Nat
  protocol : Nat
  localIp : Nat
  localPort : Nat
  remoteIp : Nat
  remotePort : Nat
  conn : Option Nat
  domain : Nat
  bound : Bool
  connected : Bool
  listening : Bool
  inUse : Bool

inductive Packet where
  | tcp (destIp srcPort destPort seq ack flags : Nat) (payload : List Nat)
  | udp (destIp srcPort destPort length : Nat) (payload : List Nat)

/-- The socket table, the connection table, the interface's address, the packets sent
and the memory user pointers point into. -/
structure Net where
  sockets : Nat → Socket
  connections : Nat → TcpConn
  netifIp : Nat
  sent : List Packet
  user : UserSpace

abbrev tcpFin : Nat := 0x01
abbrev tcpSyn : Nat := 0x02
abbrev tcpPsh : Nat := 0x08
abbrev tcpAck : Nat := 0x10

def TcpConn.zero : TcpConn := ⟨0, 0, 0, 0, 0, 0, .closed, 0, 0, false⟩

def Socket.zero : Socket := ⟨0, 0, 0, 0, 0, 0, none, 0, false, false, false, false⟩

def Net.setConn (s : Net) (index : Nat) (conn : TcpConn) : Net :=
  { s with connections := fun i => if i = index then conn else s.connections i }

def Net.setSocket (s : Net) (fd : Nat) (socket : Socket) : Net :=
  { s with sockets := fun i => if i = fd then socket else s.sockets i }

def Net.read (s : Net) (addr len : Nat) : List Nat × Net :=
  let result := s.user.read addr len
  (result.1, { s with user := result.2 })

def Net.write (s : Net) (addr : Nat) (bytes : List Nat) : Net :=
  { s with user := s.user.write addr bytes }

/-! TCP and UDP. -/

def tcpAllocConn (s : Net) : Option (Nat × Net) := do
  let index ← (List.range maxTcpConnections).find? fun i => !(s.connections i).inUse
  return (index, s.setConn index { TcpConn.zero with inUse := true })

/-- `tcp_send_packet(conn, flags, data, len)`; a null `data` sends no payload. -/
def tcpSendPacket (s : Net) (index flags data len : Nat) : Net :=
  let conn := s.connections index
  let copied := if 0 < len ∧ data ≠ 0 then s.read data len else ([], s)
  { copied.2 with
    sent := copied.2.sent ++
      [.tcp conn.remoteIp conn.localPort conn.remotePort conn.seq conn.ack flags copied.1] }

def tcpConnect (s : Net) (destIp destPort : Nat) : Option (Nat × Net) := do
  let (index, s) ← tcpAllocConn s
  let conn := { s.connections index with
    localIp := s.netifIp, remoteIp := destIp, localPort := 49152 + destPort % 16384
    remotePort := destPort, seq := 1000, ack := 0, state := .synSent }
  let s := tcpSendPacket (s.setConn index conn) index tcpSyn 0 0
  return (index, s.setConn index { conn with seq := u32 (conn.seq + 1) })

def tcpListen (s : Net) (port : Nat) : Option (Nat × Net) := do
  let (index, s) ← tcpAllocConn s
  return (index, s.setConn index { s.connections index with
    localIp := s.netifIp, localPort := port, state := .listen })

/-- "Simplified - would need to check for incoming SYN" -/
def tcpAccept (_listener : Option Nat) : Option Nat := none

def tcpSend (s : Net) (conn : Option Nat) (data len : Nat) : Int × Net :=
  match conn with
  | none => (-1, s)
  | some index =>
      if (s.connections index).state ≠ .established then (-1, s)
      else
        let s := tcpSendPacket s index (tcpAck ||| tcpPsh) data len
        let conn := s.connections index
        (len, s.setConn index { conn with seq := u32 (conn.seq + len) })

def tcpRecv (s : Net) (conn : Option Nat) (buffer maxLen : Nat) : Int × Net :=
  match conn with
  | none => (0, s)
  | some index =>
      let conn := s.connections index
      if conn.recvBuf = 0 ∨ conn.recvLen = 0 then (0, s)
      else
        let len := if conn.recvLen < maxLen then conn.recvLen else maxLen
        let bytes := (List.range len).map fun i => s.user.memory (u32 (conn.recvBuf + i))
        (len, (s.write buffer bytes).setConn index { conn with recvLen := 0 })

def tcpClose (s : Net) (conn : Option Nat) : Net :=
  match conn with
  | none => s
  | some index =>
      let s :=
        if (s.connections index).state = .established then
          let s := tcpSendPacket s index (tcpFin ||| tcpAck) 0 0
          s.setConn index { s.connections index with state := .finWait1 }
        else s
      s.setConn index { s.connections index with inUse := false }

/-- `udp_send`; the packet buffer has room for 1492 bytes of payload. -/
def udpSend (s : Net) (destIp srcPort destPort data len : Nat) : Int × Net :=
  let length := (8 + len) % 65536
  let len := if 1492 < len then 1492 else len
  let copied := s.read data len
  (len, { copied.2 with
    sent := copied.2.sent ++ [.udp destIp srcPort destPort length copied.1] })

/-! The socket layer. -/

def getSocket (s : Net) (fd : Nat) : Option Socket :=
  -- A negative descriptor is a large word.
  if maxSockets ≤ fd then none
  else if (s.sockets fd).inUse then some (s.sockets fd)
  else none

def socketCreate (s : Net) (domain type : Nat) : Int × Net :=
  if domain ≠ afInet then (-1, s)
  else if type ≠ sockStream ∧ type ≠ sockDgram then (-1, s)
  else match (List.range maxSockets).find? fun i => !(s.sockets i).inUse with
    | none => (-1, s)
    | some i =>
        let protocol := if type = sockStream then ipProtoTcp else ipProtoUdp
        (i, s.setSocket i { Socket.zero with inUse := true, type, domain, protocol })

def readSockaddr (s : Net) (addr : Nat) : Nat × Nat × Net :=
  let ip := s.read (addr + 4) 4
  let port := ip.2.read (addr + 2) 2
  (bigEndian ip.1, bigEndian port.1, port.2)

def socketBind (s : Net) (fd addr : Nat) : Int × Net :=
  match getSocket s fd with
  | none => (-1, s)
  | some socket =>
      let (localIp, localPort, s) := readSockaddr s addr
      (0, s.setSocket fd { socket with localIp, localPort, bound := true })

def socketListen (s : Net) (fd : Nat) : Int × Net :=
  match getSocket s fd with
  | none => (-1, s)
  | some socket =>
      if socket.type ≠ sockStream then (-1, s)
      else match tcpListen s socket.localPort with
        | none => (-1, s.setSocket fd { socket with conn := none })
        | some (index, s) =>
            (0, s.setSocket fd { socket with conn := some index, listening := true })

def socketAccept (s : Net) (fd : Nat) : Int × Net :=
  match getSocket s fd with
  | none => (-1, s)
  | some socket =>
      if !socket.listening then (-1, s)
      else match tcpAccept socket.conn with
        | none => (-1, s)
        | some index =>
            let created := socketCreate s afInet sockStream
            if created.1 < 0 then (-1, created.2)
            else
              let conn := created.2.connections index
              let newfd := created.1.toNat
              (created.1, created.2.setSocket newfd
                { created.2.sockets newfd with
                  conn := some index, connected := true, remoteIp := conn.remoteIp
                  remotePort := conn.remotePort })

def socketConnect (s : Net) (fd addr : Nat) : Int × Net :=
  match getSocket s fd with
  | none => (-1, s)
  | some socket =>
      let (remoteIp, remotePort, s) := readSockaddr s addr
      let socket := { socket with remoteIp, remotePort }
      if socket.type = sockStream then
        match tcpConnect s remoteIp remotePort with
        | none => (-1, s.setSocket fd { socket with conn := none })
        | some (index, s) =>
            (0, s.setSocket fd { socket with conn := some index, connected := true })
      else (0, s.setSocket fd { socket with connected := true })

def socketSend (s : Net) (fd buf len : Nat) : Int × Net :=
  match getSocket s fd with
  | none => (-1, s)
  | some socket =>
      if !socket.connected then (-1, s)
      -- Both protocols take a 16-bit length.
      else if socket.type = sockStream then tcpSend s socket.conn buf (len % 65536)
      else if socket.type = sockDgram then
        udpSend s socket.remoteIp socket.localPort socket.remotePort buf (len % 65536)
      else (-1, s)

def socketRecv (s : Net) (fd buf len : Nat) : Int × Net :=
  match getSocket s fd with
  | none => (-1, s)
  | some socket =>
      if socket.type = sockStream then tcpRecv s socket.conn buf (len % 65536) else (-1, s)

def socketClose (s : Net) (fd : Nat) : Int × Net :=
  match getSocket s fd with
  | none => (-1, s)
  | some socket =>
      let s := if socket.type = sockStream then tcpClose s socket.conn else s
      (0, s.setSocket fd { socket with inUse := false })

def socketShutdown (s : Net) (fd how : Nat) : Int × Net :=
  match getSocket s fd with
  | none => (-1, s)
  | some socket =>
      if socket.type = sockStream ∧ (how = 1 ∨ how = 2) then (0, tcpClose s socket.conn)
      else (0, s)

def writeSockaddr (s : Net) (addr addrlen ip port : Nat) : Net :=
  let s := s.write addr (toLittleEndian afInet 2)
  let s := s.write (addr + 2) (toBigEndian port 2)
  let s := s.write (addr + 4) (toBigEndian ip 4)
  if addrlen ≠ 0 then s.write addrlen (toLittleEndian 16 4) else s

def socketGetpeername (s : Net) (fd addr addrlen : Nat) : Int × Net :=
  match getSocket s fd with
  | none => (-1, s)
  | some socket =>
      if !socket.connected then (-1, s)
      else (0, writeSockaddr s addr addrlen socket.remoteIp socket.remotePort)

def socketGetsockname (s : Net) (fd addr addrlen : Nat) : Int × Net :=
  match getSocket s fd with
  | none => (-1, s)
  | some socket => (0, writeSockaddr s addr addrlen socket.localIp socket.localPort)

def socketSetsockopt (s : Net) (fd : Nat) : Int × Net :=
  match getSocket s fd with
  | none => (-1, s)
  | some _ => (0, s)

def socketGetsockopt (s : Net) (fd optval optlen : Nat) : Int × Net :=
  match getSocket s fd with
  | none => (-1, s)
  | some _ =>
      if optval ≠ 0 ∧ optlen ≠ 0 then
        let length := s.read optlen 4
        if 4 ≤ littleEndian length.1 then
          (0, (length.2.write optval (toLittleEndian 0 4)).write optlen (toLittleEndian 4 4))
        else (0, length.2)
      else (0, s)

def selectTest (s : Net) (fds i : Nat) : Bool × Net :=
  if fds ≠ 0 then
    let word := s.read fds 4
    ((littleEndian word.1).testBit i, word.2)
  else (false, s)

def selectRound (readfds writefds : Nat) (counted : Nat × Net) (i : Nat) : Nat × Net :=
  match getSocket counted.2 i with
  | none => counted
  | some socket =>
      let reads := selectTest counted.2 readfds i
      let ready := if reads.1 ∧ socket.listening then counted.1 + 1 else counted.1
      let writes := selectTest reads.2 writefds i
      let ready :=
        if writes.1 ∧ (socket.connected ∨ socket.type = sockDgram) then ready + 1 else ready
      (ready, writes.2)

/-- The descriptors `select` looks at; a negative `nfds` is a large word. -/
def selectCount (nfds : Nat) : Nat := if nfds < 2147483648 then min nfds maxSockets else 0

def socketSelect (s : Net) (nfds readfds writefds : Nat) : Int × Net :=
  let counted := (List.range (selectCount nfds)).foldl (selectRound readfds writefds) (0, s)
  (counted.1, counted.2)

/-! The system calls. -/

inductive SocketCall where
  | socket (domain type protocol : Nat)
  | bind (sockfd addr addrlen : Nat)
  | listen (sockfd backlog : Nat)
  | accept (sockfd addr addrlen : Nat)
  | connect (sockfd addr addrlen : Nat)
  | send (sockfd buf len flags : Nat)
  | recv (sockfd buf len flags : Nat)
  | closesock (sockfd : Nat)
  | shutdown (sockfd how : Nat)
  | getsockname (sockfd addr addrlen : Nat)
  | getpeername (sockfd addr addrlen : Nat)
  | setsockopt (sockfd level optname optval optlen : Nat)
  | getsockopt (sockfd level optname optval optlen : Nat)
  | select (nfds readfds writefds exceptfds timeout : Nat)

def socketSyscall (s : Net) : SocketCall → Int × Net
  | .socket domain type _ => socketCreate s domain type
  | .bind sockfd addr _ => socketBind s sockfd addr
  | .listen sockfd _ => socketListen s sockfd
  | .accept sockfd _ _ => socketAccept s sockfd
  | .connect sockfd addr _ => socketConnect s sockfd addr
  | .send sockfd buf len _ => socketSend s sockfd buf len
  | .recv sockfd buf len _ => socketRecv s sockfd buf len
  | .closesock sockfd => socketClose s sockfd
  | .shutdown sockfd how => socketShutdown s sockfd how
  | .getsockname sockfd addr addrlen => socketGetsockname s sockfd addr addrlen
  | .getpeername sockfd addr addrlen => socketGetpeername s sockfd addr addrlen
  | .setsockopt sockfd _ _ _ _ => socketSetsockopt s sockfd
  | .getsockopt sockfd _ _ optval optlen => socketGetsockopt s sockfd optval optlen
  | .select nfds readfds writefds _ _ => socketSelect s nfds readfds writefds

/-- A call and what it touched: the record starts empty. -/
def Net.call (s : Net) (call : SocketCall) : Int × Net :=
  socketSyscall { s with user := { s.user with trace := [] } } call

def Net.start (netifIp : Nat) (memory : Nat → Nat) : Net :=
  { sockets := fun _ => Socket.zero, connections := fun _ => TcpConn.zero, netifIp, sent := []
    user := ⟨memory, []⟩ }

end ZurichOS
