import ZurichOS.NetReceiveCore

/-!
The DHCP client of `services/net/dhcp.c`.  `ip_send` polls the network while it waits for a
hardware address, so messages can arrive before `udp_send` returns and the client's state
is set: a call of `udp_send` is taken in two steps.
-/

namespace ZurichOS

open Words ByteReader

abbrev dhcpServerPort : Nat := 67
abbrev dhcpClientPort : Nat := 68
abbrev dhcpDiscoverType : Nat := 1
abbrev dhcpOfferType : Nat := 2
abbrev dhcpRequestType : Nat := 3
abbrev dhcpAckType : Nat := 5
abbrev dhcpNakType : Nat := 6
abbrev dhcpOptPad : Nat := 0
abbrev dhcpOptSubnetMask : Nat := 1
abbrev dhcpOptRouter : Nat := 3
abbrev dhcpOptDns : Nat := 6
abbrev dhcpOptRequestedIp : Nat := 50
abbrev dhcpOptLeaseTime : Nat := 51
abbrev dhcpOptMsgType : Nat := 53
abbrev dhcpOptServerId : Nat := 54
abbrev dhcpOptParamReq : Nat := 55
abbrev dhcpOptEnd : Nat := 255
abbrev dhcpMagicCookie : Nat := 0x63825363

/-- Where the options of the header start, how many bytes they have, and its size. -/
abbrev dhcpOptions : Nat := 240
abbrev dhcpOptionsLen : Nat := 308
abbrev dhcpHeaderSize : Nat := 548

inductive DhcpState where
  | init | selecting | requesting | bound | renewing | rebinding
  deriving DecidableEq

structure DhcpLease where
  ip : Nat
  netmask : Nat
  gateway : Nat
  dns : Nat
  server : Nat
  leaseTime : Nat
  deriving DecidableEq

/-- What `net_set_ip` sets. -/
structure NetifConfig where
  ip : Nat
  netmask : Nat
  gateway : Nat
  deriving DecidableEq

inductive DhcpCall where
  | discover | request
  deriving DecidableEq

/-- The state the call sets at its end. -/
def DhcpCall.state : DhcpCall → DhcpState
  | .discover => .selecting
  | .request => .requesting

/-- A call of `dhcp_discover` or `dhcp_request` in `udp_send`. -/
structure DhcpSend where
  call : DhcpCall
  packet : List UInt8

/-- The static variables of `dhcp.c`, the interface, the calls that are in `udp_send`, the
innermost first, and the packets sent. -/
structure DhcpClient where
  state : DhcpState
  lease : DhcpLease
  xid : Nat
  mac : Vector UInt8 6
  config : NetifConfig
  sending : List DhcpSend
  sent : List Packet

def DhcpLease.zero : DhcpLease := ⟨0, 0, 0, 0, 0, 0⟩

def DhcpClient.boot (mac : Vector UInt8 6) (config : NetifConfig) : DhcpClient :=
  ⟨.init, .zero, 0x12345678, mac, config, [], []⟩

def dhcpInit (c : DhcpClient) : DhcpClient := { c with lease := .zero, state := .init }

/-! The packets of the client. -/

/-- `dhcp_add_option`. -/
def dhcpAddOption (type : Nat) (data : List UInt8) : List UInt8 :=
  .ofNat type :: .ofNat data.length :: data

/-- The header, up to the client's hardware address and from there on. -/
def dhcpFixed (xid : Nat) : List UInt8 :=
  [1, 1, 6, 0] ++ be32 xid ++ be16 0 ++ be16 0x8000 ++ List.replicate 16 0

def dhcpRest (options : List UInt8) : List UInt8 :=
  List.replicate 202 0 ++ be32 dhcpMagicCookie ++ options ++
    List.replicate (dhcpOptionsLen - options.length) 0

def dhcpPacket (xid : Nat) (mac : Vector UInt8 6) (options : List UInt8) : List UInt8 :=
  dhcpFixed xid ++ mac.toList ++ dhcpRest options

/-- The packet is built and handed to `udp_send`. -/
def dhcpSend (c : DhcpClient) (call : DhcpCall) (options : List UInt8) : DhcpClient :=
  { c with
    xid := u32 (c.xid + 1), sending := ⟨call, dhcpPacket c.xid c.mac options⟩ :: c.sending }

/-- `dhcp_discover`, up to `udp_send`. -/
def dhcpDiscover (c : DhcpClient) : DhcpClient :=
  let params := [dhcpOptSubnetMask, dhcpOptRouter, dhcpOptDns].map UInt8.ofNat
  dhcpSend c .discover (dhcpAddOption dhcpOptMsgType [.ofNat dhcpDiscoverType] ++
    dhcpAddOption dhcpOptParamReq params ++ [.ofNat dhcpOptEnd])

/-- `dhcp_request`, up to `udp_send`. -/
def dhcpRequest (c : DhcpClient) (requestedIp serverIp : Nat) : DhcpClient :=
  dhcpSend c .request (dhcpAddOption dhcpOptMsgType [.ofNat dhcpRequestType] ++
    dhcpAddOption dhcpOptRequestedIp (be32 requestedIp) ++
    dhcpAddOption dhcpOptServerId (be32 serverIp) ++ [.ofNat dhcpOptEnd])

/-- `udp_send` returns to the innermost call of `dhcp_discover` or `dhcp_request`. -/
def dhcpSent (c : DhcpClient) : DhcpClient :=
  match c.sending with
  | [] => c
  | send :: rest =>
      let payload := send.packet.map UInt8.toNat
      { c with
        state := send.call.state, sending := rest
        sent := c.sent ++
          [.udp 0xFFFFFFFF dhcpClientPort dhcpServerPort (8 + payload.length) payload] }

/-! The messages of the server. -/

/-- The local variables of `dhcp_receive`. -/
structure DhcpMessage where
  msgType : Nat
  serverId : Nat
  subnet : Nat
  router : Nat
  dns : Nat
  leaseTime : Nat
  offeredIp : Nat

def dhcpOption (type opt : Nat) (m : DhcpMessage) : Reader DhcpMessage :=
  if type = dhcpOptMsgType then do
    let value ← byte opt
    return { m with msgType := value }
  else if type = dhcpOptServerId then do
    let value ← word32 opt
    return { m with serverId := value }
  else if type = dhcpOptSubnetMask then do
    let value ← word32 opt
    return { m with subnet := value }
  else if type = dhcpOptRouter then do
    let value ← word32 opt
    return { m with router := value }
  else if type = dhcpOptDns then do
    let value ← word32 opt
    return { m with dns := value }
  else if type = dhcpOptLeaseTime then do
    let value ← word32 opt
    return { m with leaseTime := value }
  else pure m

/-- The loop over the options.  Every turn moves `opt`, so one turn for each byte is enough. -/
def dhcpParseOptions : Nat → Nat → DhcpMessage → Reader DhcpMessage
  | 0, _, m => pure m
  | turns + 1, opt, m => do
      let type ← byte opt
      if type ≠ dhcpOptEnd ∧ opt < dhcpOptions + dhcpOptionsLen then
        if type = dhcpOptPad then dhcpParseOptions turns (opt + 1) m
        else
          let olen ← byte (opt + 1)
          let m ← dhcpOption type (opt + 2) m
          dhcpParseOptions turns (opt + 2 + olen) m
      else return m

/-- `dhcp_receive`, up to what it does with a message. -/
def dhcpParse (len : Nat) : Reader (Option DhcpMessage) :=
  if len < dhcpHeaderSize - dhcpOptionsLen then pure none
  else do
    let op ← byte 0
    if op ≠ 2 then return none
    else
      let magic ← word32 236
      if magic ≠ dhcpMagicCookie then return none
      else
        let m ← dhcpParseOptions (dhcpOptionsLen + 1) dhcpOptions ⟨0, 0, 0, 0, 0, 0, 0⟩
        let offeredIp ← word32 16
        return some { m with offeredIp }

def dhcpMessage (d : Datagram) : Option DhcpMessage := (dhcpParse d.len).value d.data

def dhcpReceive (c : DhcpClient) (d : Datagram) : DhcpClient :=
  match dhcpMessage d with
  | none => c
  | some m =>
      if m.msgType = dhcpOfferType ∧ c.state = .selecting then
        let lease := { c.lease with ip := m.offeredIp, server := m.serverId }
        dhcpRequest { c with lease } m.offeredIp m.serverId
      else if m.msgType = dhcpAckType ∧ c.state = .requesting then
        let lease := { c.lease with
          ip := m.offeredIp, netmask := m.subnet, gateway := m.router, dns := m.dns
          leaseTime := m.leaseTime }
        { c with lease, config := ⟨lease.ip, lease.netmask, lease.gateway⟩, state := .bound }
      else if m.msgType = dhcpNakType then { c with state := .init }
      else c

end ZurichOS
