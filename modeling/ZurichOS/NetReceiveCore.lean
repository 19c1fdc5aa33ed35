import ZurichOS.ByteReader
import ZurichOS.SocketCore

/-!
The receive path of `services/net`: `ip_receive` and what it hands a packet to in
`icmp.c`, `udp.c` and `tcp.c`.  Every byte of the packet is read through a reader, so
that the positions read are part of the result.
-/

namespace ZurichOS

open Words ByteReader

abbrev ipVersion : Nat := 4
abbrev ipHeaderLen : Nat := 20
abbrev ipProtoIcmp : Nat := 1
abbrev icmpEchoReply : Nat := 0
abbrev icmpEchoRequest : Nat := 8
abbrev tcpRst : Nat := 0x04

/-- The difference of two `uint16_t`. -/
def sub16 (left right : Nat) : Nat := (left + 65536 - right) % 65536

def hasFlag (flags flag : Nat) : Prop := flags &&& flag ≠ 0

instance (flags flag : Nat) : Decidable (hasFlag flags flag) :=
  inferInstanceAs (Decidable (_ ≠ _))

/-- What the receive path hands on: a reply for `ip_send`, and calls of other services. -/
inductive NetDelivery where
  | echoReply (destIp id seq : Nat) (payload : List Nat)
  | pingSetReply (bytes rtt ttl : Nat)
  | dnsReceive (len : Nat)
  | dhcpReceive (len : Nat)
  deriving DecidableEq

/-- The payload a service of UDP is given. -/
structure Datagram where
  data : Bytes
  len : Nat

/-! ICMP. -/

/-- `icmp_send_echo_reply`, whose packet has room for 56 bytes of payload; `data` is a
position in the packet received. -/
def icmpSendEchoReply (destIp id seq data len : Nat) : Reader NetDelivery := do
  let len := if 56 < len then 56 else len
  let payload ← bytes data len
  return .echoReply destIp id seq payload

def icmpReceive (srcIp len : Nat) : Reader (List NetDelivery) :=
  if len < 8 then pure []
  else do
    let type ← byte 0
    if type = icmpEchoRequest then
      let id ← word16 4
      let seq ← word16 6
      let reply ← icmpSendEchoReply srcIp id seq 8 (sub16 len 8)
      return [reply]
    else if type = icmpEchoReply then return [.pingSetReply len 0 64]
    else return []

/-! UDP. -/

def udpReceive (len : Nat) : Reader (List NetDelivery) :=
  if len < 8 then pure []
  else do
    let srcPort ← word16 0
    let destPort ← word16 2
    let length ← word16 4
    let dataLen := sub16 length 8
    if srcPort = 53 then return [.dnsReceive dataLen]
    else if srcPort = 67 ∨ destPort = 68 then return [.dhcpReceive dataLen]
    else return []

/-! TCP. -/

def tcpFindConn (s : Net) (remoteIp remotePort localPort : Nat) : Option Nat :=
  (List.range maxTcpConnections).find? fun i =>
    (s.connections i).inUse ∧ (s.connections i).remoteIp = remoteIp ∧
      (s.connections i).remotePort = remotePort ∧ (s.connections i).localPort = localPort

def tcpFindListener (s : Net) (localPort : Nat) : Option Nat :=
  (List.range maxTcpConnections).find? fun i =>
    (s.connections i).inUse ∧ (s.connections i).state = .listen ∧
      (s.connections i).localPort = localPort

/-- The connection `tcp_receive` finds for a segment. -/
def tcpLookup (s : Net) (remoteIp remotePort localPort : Nat) : Option Nat :=
  (tcpFindConn s remoteIp remotePort localPort).or (tcpFindListener s localPort)

def tcpReceiveListen (s : Net) (index srcIp srcPort seq flags : Nat) : Net :=
  if hasFlag flags tcpSyn then
    let conn := { s.connections index with
      remoteIp := srcIp, remotePort := srcPort, ack := u32 (seq + 1), seq := 2000
      state := .synReceived }
    let s := tcpSendPacket (s.setConn index conn) index (tcpSyn ||| tcpAck) 0 0
    s.setConn index { conn with seq := u32 (conn.seq + 1) }
  else s

def tcpReceiveSynSent (s : Net) (index seq flags : Nat) : Net :=
  if hasFlag flags tcpSyn ∧ hasFlag flags tcpAck then
    tcpSendPacket (s.setConn index { s.connections index with
      ack := u32 (seq + 1), state := .established }) index tcpAck 0 0
  else s

def tcpReceiveSynReceived (s : Net) (index flags : Nat) : Net :=
  if hasFlag flags tcpAck then s.setConn index { s.connections index with state := .established }
  else s

def tcpReceiveEstablished (s : Net) (index seq flags len : Nat) : Reader Net :=
  if hasFlag flags tcpFin then
    let s := tcpSendPacket (s.setConn index { s.connections index with ack := u32 (seq + 1) })
      index tcpAck 0 0
    pure (s.setConn index { s.connections index with state := .closeWait })
  else if hasFlag flags tcpAck then do
    let offset ← byte 12
    let dataOffset := offset / 16 * 4
    let dataLen := sub16 len dataOffset
    if 0 < dataLen then
      return tcpSendPacket (s.setConn index { s.connections index with
        ack := u32 (seq + dataLen) }) index tcpAck 0 0
    else return s
  else pure s

def tcpReceive (s : Net) (srcIp len : Nat) : Reader Net :=
  if len < 20 then pure s
  else do
    let srcPort ← word16 0
    let destPort ← word16 2
    let seq ← word32 4
    -- The acknowledgement number is read and dropped.
    let _ackNum ← word32 8
    let flags ← byte 13
    match tcpLookup s srcIp srcPort destPort with
    | none => return s
    | some index =>
        match (s.connections index).state with
        | .listen => return tcpReceiveListen s index srcIp srcPort seq flags
        | .synSent => return tcpReceiveSynSent s index seq flags
        | .synReceived => return tcpReceiveSynReceived s index flags
        | .established => tcpReceiveEstablished s index seq flags len
        | _ => return s

/-! IP. -/

structure Received where
  net : Net
  handed : List NetDelivery

/-- The switch over `hdr->protocol`, at the start of the data. -/
def ipDeliver (s : Net) (protocol srcIp len : Nat) : Reader Received :=
  if protocol = ipProtoIcmp then do
    let handed ← icmpReceive srcIp len
    return ⟨s, handed⟩
  else if protocol = ipProtoUdp then do
    let handed ← udpReceive len
    return ⟨s, handed⟩
  else if protocol = ipProtoTcp then do
    let net ← tcpReceive s srcIp len
    return ⟨net, []⟩
  else pure ⟨s, []⟩

def ipReceive (s : Net) (len : Nat) : Reader Received :=
  if len < ipHeaderLen then pure ⟨s, []⟩
  else do
    let ihlVersion ← byte 0
    if ihlVersion / 16 ≠ ipVersion then return ⟨s, []⟩
    else
      let hdrLen := ihlVersion % 16 * 4
      let destIp ← word32 16
      let srcIp ← word32 12
      if s.netifIp ≠ 0 ∧ destIp ≠ s.netifIp ∧ destIp ≠ 0xFFFFFFFF then return ⟨s, []⟩
      else
        let totalLen ← word16 2
        let dataLen := sub16 totalLen hdrLen
        let protocol ← byte 9
        (ipDeliver s protocol srcIp dataLen).shift hdrLen

end ZurichOS
