import ZurichOS.Arp
import ZurichOS.Checksum
import ZurichOS.SocketCore

/-!
The bytes that `tcp_send`, `udp_send` and `ip_send` put on the wire, and how far they fill the
buffers on the stack on the way.  A call is given the bytes of its payload, and the caches of
`arp.c` before and after each call of `net_poll` that it makes while it waits for an address.
-/

namespace ZurichOS

open Words

namespace Wire

abbrev ipMtu : Nat := 1480
abbrev ethHlen : Nat := 14
abbrev ethDataLen : Nat := 1500
abbrev ethFrameLen : Nat := 1514
abbrev ethTypeIp : Nat := 0x0800
abbrev packetSize : Nat := 1500
abbrev udpHeaderLen : Nat := 8
abbrev tcpHeaderLen : Nat := 20
abbrev arpPolls : Nat := 100000

structure Netif where
  mac : Nat → UInt8
  ip : Nat
  netmask : Nat
  gateway : Nat

/-- What the send path looks at: the default interface, the number of the next packet, and the
cache after each poll. -/
structure Link where
  netif : Option Netif
  ipId : Nat
  caches : Nat → ArpCache

/-- A local buffer of `size` bytes is filled up to `stop`. -/
structure Fill where
  stop : Nat
  size : Nat

/-- What a call fills on the stack, and the frame that it hands to the interface. -/
structure Sending where
  fills : List Fill
  frame : Option (List UInt8)

def ethSend (netif : Netif) (dest : List UInt8) (type : Nat) (data : List UInt8) : Sending :=
  let data := data.take ethDataLen
  { fills := [⟨ethHlen + data.length, ethFrameLen⟩]
    frame := some (dest ++ macBytes netif.mac ++ networkWord type ++ data) }

def nextHop (netif : Netif) (destIp : Nat) : Nat :=
  if destIp &&& netif.netmask ≠ netif.ip &&& netif.netmask then netif.gateway else destIp

/-- The lookup before the request, those after each poll, and the last one. -/
def arpResolve (caches : Nat → ArpCache) (ip : Nat) : Option (List UInt8) :=
  (List.range (arpPolls + 1)).findSome? fun polls => arpLookup (caches polls) ip

/-- The header with its checksum; three rounds fold the carries of any header. -/
def ipHeader (packetId protocol source dest len : Nat) : List UInt8 :=
  let header := ipSendHeader packetId protocol source dest len
  storeWord header 10 ((ipChecksum 3 header).getD 0)

def ipSend (link : Link) (destIp protocol : Nat) (data : List UInt8) : Sending :=
  match link.netif with
  | none => ⟨[], none⟩
  | some netif =>
      if netif.ip = 0 then ⟨[], none⟩
      else
        let header := ipHeader link.ipId protocol netif.ip destIp data.length
        let data := data.take ipMtu
        let fill : Fill := ⟨ipHeaderLen + data.length, ipMtu + ipHeaderLen⟩
        match arpResolve link.caches (nextHop netif destIp) with
        | none => ⟨[fill], none⟩
        | some mac =>
            let sent := ethSend netif mac ethTypeIp (header ++ data)
            ⟨fill :: sent.fills, sent.frame⟩

def udpHeader (srcPort destPort len : Nat) : List UInt8 :=
  networkWord srcPort ++ networkWord destPort ++ networkWord (udpHeaderLen + len) ++ [0, 0]

def udpSend (link : Link) (destIp srcPort destPort : Nat) (data : List UInt8) : Int × Sending :=
  let header := udpHeader srcPort destPort data.length
  let data := data.take (packetSize - udpHeaderLen)
  let sent := ipSend link destIp ipProtoUdp (header ++ data)
  (data.length, ⟨⟨udpHeaderLen + data.length, packetSize⟩ :: sent.fills, sent.frame⟩)

/-- The header as `tcp_send_packet` fills it in before it sums the segment. -/
def tcpHeader (conn : TcpConn) (flags : Nat) : List UInt8 :=
  networkWord conn.localPort ++ networkWord conn.remotePort ++
    networkWord (conn.seq / 65536) ++ networkWord conn.seq ++
    networkWord (conn.ack / 65536) ++ networkWord conn.ack ++
    [UInt8.ofNat (5 <<< 4), UInt8.ofNat flags] ++ networkWord 8192 ++ [0, 0] ++ [0, 0]

def htons (value : Nat) : Nat := value % 256 * 256 + value / 256 % 256

def tcpChecksum (fuel srcIp destIp : Nat) (data : List UInt8) (len : Nat) : Option Nat :=
  let sum := 0
  let sum := u32 (sum + (srcIp >>> 16 &&& 0xFFFF))
  let sum := u32 (sum + (srcIp &&& 0xFFFF))
  let sum := u32 (sum + (destIp >>> 16 &&& 0xFFFF))
  let sum := u32 (sum + (destIp &&& 0xFFFF))
  let sum := u32 (sum + htons ipProtoTcp)
  let sum := u32 (sum + htons len)
  (foldCarries fuel (sumWords sum (data.take len))).map fun sum => (0xFFFFFFFF - sum) % 65536

/-- The segment in the buffer, with its checksum. -/
def tcpSegment (srcIp : Nat) (conn : TcpConn) (flags : Nat) (data : List UInt8) : List UInt8 :=
  let packet := tcpHeader conn flags ++ data
  storeWord packet 16
    ((tcpChecksum 3 srcIp conn.remoteIp packet ((tcpHeaderLen + data.length) % 65536)).getD 0)

def tcpSendPacket (link : Link) (conn : TcpConn) (flags : Nat) (data : List UInt8) : Sending :=
  match link.netif with
  | none => ⟨[], none⟩
  | some netif =>
      let segment := tcpSegment netif.ip conn flags data
      let sent := ipSend link conn.remoteIp ipProtoTcp
        (segment.take ((tcpHeaderLen + data.length) % 65536))
      ⟨⟨tcpHeaderLen + data.length, packetSize⟩ :: sent.fills, sent.frame⟩

/-- The result, what is sent, and the connection afterwards. -/
def tcpSend (link : Link) (conn : TcpConn) (data : List UInt8) : Int × Sending × TcpConn :=
  if conn.state ≠ .established then (-1, ⟨[], none⟩, conn)
  else
    (data.length, tcpSendPacket link conn (tcpAck ||| tcpPsh) data,
      { conn with seq := u32 (conn.seq + data.length) })

end Wire

end ZurichOS
