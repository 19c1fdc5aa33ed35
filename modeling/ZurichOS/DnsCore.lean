import ZurichOS.NetReceiveCore

/-!
The resolver of `services/net/dns.c`.  A response is the memory from its first byte on and
a length; its names and records are walked with a reader.
-/

namespace ZurichOS

open Words ByteReader

abbrev dnsPort : Nat := 53
abbrev dnsMaxNameLen : Nat := 256
abbrev dnsCacheSize : Nat := 16
abbrev dnsFlagQr : Nat := 0x8000
abbrev dnsFlagRd : Nat := 0x0100
abbrev dnsFlagRcode : Nat := 0x000F
abbrev dnsTypeA : Nat := 1
abbrev dnsClassIn : Nat := 1
abbrev dnsHeaderSize : Nat := 12
abbrev dnsPacketSize : Nat := 512

structure DnsCacheEntry where
  name : List UInt8
  ip : Nat
  ttl : Nat
  valid : Bool

/-- The static variables of `dns.c`, and the packets sent. -/
structure Dns where
  server : Nat
  cache : Nat → DnsCacheEntry
  id : Nat
  resultIp : Nat
  resultReady : Bool
  sent : List Packet

def DnsCacheEntry.zero : DnsCacheEntry := ⟨[], 0, 0, false⟩

def Dns.boot : Dns := ⟨0, fun _ => .zero, 1, 0, false, []⟩

def dnsInit (s : Dns) : Dns := { s with cache := fun _ => .zero, server := 0x08080808 }

def dnsSetServer (s : Dns) (serverIp : Nat) : Dns := { s with server := serverIp }

/-! The cache. -/

/-- The slot `dns_cache_lookup` stops at. -/
def dnsCacheSlot (s : Dns) (hostname : List UInt8) : Option Nat :=
  (List.range dnsCacheSize).find? fun i => (s.cache i).valid ∧ (s.cache i).name = hostname

def dnsCacheLookup (s : Dns) (hostname : List UInt8) : Option Nat :=
  (dnsCacheSlot s hostname).map fun i => (s.cache i).ip

def dnsCacheAdd (s : Dns) (hostname : List UInt8) (ip ttl : Nat) : Dns :=
  let slot := ((List.range dnsCacheSize).find? fun i => !(s.cache i).valid).getD 0
  let entry : DnsCacheEntry := ⟨hostname.take (dnsMaxNameLen - 1), ip, ttl, true⟩
  { s with cache := fun i => if i = slot then entry else s.cache i }

/-! The query. -/

def dnsEncodeLabel (label : List UInt8) : List UInt8 := .ofNat label.length :: label

/-- The loop of `dns_encode_name`, where `label` holds the characters from `p` to `dot`. -/
def dnsEncodeLabels (label : List UInt8) : List UInt8 → List UInt8
  | [] => if label = [] then [] else dnsEncodeLabel label
  | char :: rest =>
      if char = 46 then dnsEncodeLabel label ++ dnsEncodeLabels [] rest
      else dnsEncodeLabels (label ++ [char]) rest

def dnsEncodeName (name : List UInt8) : List UInt8 := dnsEncodeLabels [] name ++ [0]

/-- The packet `dns_resolve` builds, in a buffer of 512 bytes. -/
def dnsQueryPacket (id : Nat) (hostname : List UInt8) : List UInt8 :=
  be16 id ++ be16 dnsFlagRd ++ be16 1 ++ List.replicate 6 0 ++ dnsEncodeName hostname ++
    be16 dnsTypeA ++ be16 dnsClassIn

def dnsSend (s : Dns) (packet : List UInt8) : Dns :=
  let payload := packet.map UInt8.toNat
  { s with sent := s.sent ++ [.udp s.server 53535 dnsPort (8 + payload.length) payload] }

/-! The response. -/

/-- What `dns_receive` makes of a datagram. -/
inductive DnsReply where
  | ignored
  | unresolved
  | resolved (ip : Nat)
  deriving DecidableEq

def isPointer (length : Nat) : Prop := length &&& 0xC0 = 0xC0

instance (length : Nat) : Decidable (isPointer length) :=
  inferInstanceAs (Decidable (_ = _))

/-- The loop over the name of the question.  Every turn moves `ptr`, so `stop` turns are
enough. -/
def dnsSkipQuestion (stop : Nat) : Nat → Nat → Reader Nat
  | 0, ptr => pure ptr
  | turns + 1, ptr =>
      if ptr < stop then do
        let length ← byte ptr
        if length = 0 then return ptr
        else if isPointer length then return ptr + 2
        else dnsSkipQuestion stop turns (ptr + length + 1)
      else pure ptr

def dnsSkipLabels (stop : Nat) : Nat → Nat → Reader Nat
  | 0, ptr => pure ptr
  | turns + 1, ptr =>
      if ptr < stop then do
        let length ← byte ptr
        if length = 0 then return ptr
        else dnsSkipLabels stop turns (ptr + length + 1)
      else pure ptr

/-- The name in front of a record. -/
def dnsSkipName (stop ptr : Nat) : Reader Nat := do
  let length ← byte ptr
  if isPointer length then return ptr + 2
  else
    let ptr ← dnsSkipLabels stop stop ptr
    return if ptr < stop then ptr + 1 else ptr

def dnsAnswers (stop : Nat) : Nat → Nat → Reader DnsReply
  | 0, _ => pure .unresolved
  | count + 1, ptr =>
      if ptr < stop then do
        let ptr ← dnsSkipName stop ptr
        if stop < ptr + 10 then return .unresolved
        else
          let type ← word16 ptr
          let rdlen ← word16 (ptr + 8)
          let ptr := ptr + 10
          if type = dnsTypeA ∧ rdlen = 4 ∧ ptr + 4 ≤ stop then
            let ip ← word32 ptr
            return .resolved ip
          else dnsAnswers stop count (ptr + rdlen)
      else pure .unresolved

/-- The body of `dns_receive`, up to what it stores. -/
def dnsParse (len : Nat) : Reader DnsReply :=
  if len < dnsHeaderSize then pure .ignored
  else do
    let flags ← word16 2
    if ¬ hasFlag flags dnsFlagQr then return .ignored
    else if hasFlag flags dnsFlagRcode then return .unresolved
    else
      let ancount ← word16 6
      if ancount = 0 then return .unresolved
      else
        let ptr ← dnsSkipQuestion len len dnsHeaderSize
        let terminator ← byte ptr
        let ptr := if terminator = 0 then ptr + 1 else ptr
        dnsAnswers len ancount (ptr + 4)

def dnsReply (d : Datagram) : DnsReply := (dnsParse d.len).value d.data

def dnsReceive (s : Dns) (d : Datagram) : Dns :=
  match dnsReply d with
  | .ignored => s
  | .unresolved => { s with resultReady := true }
  | .resolved ip => { s with resultIp := ip, resultReady := true }

def dnsReceiveAll (s : Dns) (datagrams : List Datagram) : Dns := datagrams.foldl dnsReceive s

/-! Resolving a name. -/

abbrev dnsPollLimit : Nat := 2000000

/-- The loop over `net_poll`.  Each poll hands `dns_receive` some datagrams, and after the
last of them nothing arrives. -/
def dnsWait : Dns → List (List Datagram) → Dns
  | s, [] => s
  | s, poll :: rest => if s.resultReady then s else dnsWait (dnsReceiveAll s poll) rest

/-- What the call returns, what it stores at `ip`, and the state after it. -/
structure DnsResolved where
  code : Int
  stored : Option Nat
  state : Dns

/-- `dns_resolve` from the query on; `sending` is what arrives while `ip_send` polls for the
server's hardware address. -/
def dnsQuery (s : Dns) (hostname : List UInt8) (sending : List Datagram)
    (polls : List (List Datagram)) : DnsResolved :=
  let packet := dnsQueryPacket s.id hostname
  let s := { s with id := (s.id + 1) % 65536, resultReady := false, resultIp := 0 }
  let s := dnsReceiveAll (dnsSend s packet) sending
  let s := dnsWait s (polls.take dnsPollLimit)
  if s.resultReady ∧ s.resultIp ≠ 0 then
    ⟨0, some s.resultIp, dnsCacheAdd s hostname s.resultIp 300⟩
  else ⟨-1, none, s⟩

/-- `dns_resolve(hostname, ip)`, where a null `hostname` is `none`. -/
def dnsResolve (s : Dns) (hostname : Option (List UInt8)) (ip : Nat) (sending : List Datagram)
    (polls : List (List Datagram)) : DnsResolved :=
  match hostname with
  | none => ⟨-1, none, s⟩
  | some hostname =>
      if ip = 0 then ⟨-1, none, s⟩
      else match dnsCacheLookup s hostname with
        | some cached => ⟨0, some cached, s⟩
        | none => if s.server = 0 then ⟨-1, none, s⟩ else dnsQuery s hostname sending polls

end ZurichOS
