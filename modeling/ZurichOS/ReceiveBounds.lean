import ZurichOS.NetReceiveCore

/-!
Which packets the receive path reads within their bounds.  Each transport protocol reads
a prefix of what it is handed, so one count of bytes per protocol says how far it reads;
that count and the header length have to fit into the packet.
-/

namespace ZurichOS

open Words ByteReader

theorem sub16_lt (left right : Nat) : sub16 left right < 65536 := Nat.mod_lt _ (by omega)

theorem sub16_eq {left right : Nat} (order : right ≤ left) (bound : left < 65536) :
    sub16 left right = left - right := by
  rw [sub16]
  omega

/-! The part of a packet each protocol reads. -/

def icmpNeeds (packet : Bytes) (len : Nat) : Nat :=
  if len < 8 then 0
  else if (packet 0).toNat = icmpEchoRequest then 8 + min (len - 8) 56
  else 1

def udpNeeds (len : Nat) : Nat := if len < 8 then 0 else 6

def tcpNeeds (len : Nat) : Nat := if len < 20 then 0 else 14

def transportNeeds (data : Bytes) (protocol len : Nat) : Nat :=
  if protocol = ipProtoIcmp then icmpNeeds data len
  else if protocol = ipProtoUdp then udpNeeds len
  else if protocol = ipProtoTcp then tcpNeeds len
  else 0

def ipHdrLen (packet : Bytes) : Nat := (packet 0).toNat % 16 * 4

def ipDataLen (packet : Bytes) : Nat := sub16 ((word16 2).value packet) (ipHdrLen packet)

/-- How many bytes after the header are read. -/
def ipNeeds (packet : Bytes) : Nat :=
  transportNeeds (fun i => packet (ipHdrLen packet + i)) (packet 9).toNat (ipDataLen packet)

/-- The packet passes the checks of the IP header. -/
def IpAccepted (s : Net) (packet : Bytes) (len : Nat) : Prop :=
  ipHeaderLen ≤ len ∧ (packet 0).toNat / 16 = ipVersion ∧
    ¬ (s.netifIp ≠ 0 ∧ (word32 16).value packet ≠ s.netifIp ∧
      (word32 16).value packet ≠ 0xFFFFFFFF)

/-- A packet that is accepted holds its header and what its protocol reads. -/
def PacketFits (s : Net) (packet : Bytes) (len : Nat) : Prop :=
  IpAccepted s packet len → ipNeeds packet = 0 ∨ ipHdrLen packet + ipNeeds packet ≤ len

section Transport

variable (packet : Bytes) (limit : Nat)

theorem icmpSendEchoReply_within (destIp id seq data len : Nat) :
    (icmpSendEchoReply destIp id seq data len).Within packet limit ↔
      len = 0 ∨ data + min len 56 ≤ limit := by
  simp only [icmpSendEchoReply, within_bind, within_bytes, within_pure, and_true]
  split <;> omega

theorem icmpReceive_within (srcIp : Nat) {len : Nat} (bound : len < 65536) :
    (icmpReceive srcIp len).Within packet limit ↔ icmpNeeds packet len ≤ limit := by
  unfold icmpReceive icmpNeeds
  by_cases short : len < 8
  · simp [short]
  · simp only [if_neg short, within_bind, within_byte, value_byte, within_ite]
    by_cases request : (packet 0).toNat = icmpEchoRequest
    · simp only [if_pos request, within_word16, within_pure, and_true, icmpSendEchoReply_within,
        sub16_eq (Nat.not_lt.mp short) bound]
      omega
    · simp only [if_neg request, within_pure, ite_self, and_true]
      omega

theorem udpReceive_within (len : Nat) :
    (udpReceive len).Within packet limit ↔ udpNeeds len ≤ limit := by
  unfold udpReceive udpNeeds
  by_cases short : len < 8
  · simp [short]
  · simp only [if_neg short, within_bind, within_word16, within_ite, within_pure, ite_self,
      and_true]
    omega

theorem tcpReceiveEstablished_within (s : Net) (index seq flags len : Nat)
    (room : 14 ≤ limit) :
    (tcpReceiveEstablished s index seq flags len).Within packet limit := by
  unfold tcpReceiveEstablished
  rw [within_ite]
  split
  · exact within_pure _ _ _
  · simp only [within_ite, within_bind, within_byte, within_pure, ite_self, and_true]
    split
    · omega
    · trivial

theorem tcpReceive_within (s : Net) (srcIp len : Nat) :
    (tcpReceive s srcIp len).Within packet limit ↔ tcpNeeds len ≤ limit := by
  unfold tcpReceive tcpNeeds
  by_cases short : len < 20
  · simp [short]
  · simp only [if_neg short, within_bind, within_word16, within_word32, within_byte]
    constructor
    · rintro ⟨_, _, _, _, flags, _⟩
      omega
    · intro room
      refine ⟨by omega, by omega, by omega, by omega, by omega, ?_⟩
      -- Only an established connection reads on, and no further than the flags.
      split
      · simp
      · split <;> first
          | exact within_pure _ _ _
          | exact tcpReceiveEstablished_within packet limit s _ _ _ _ room

theorem ipDeliver_within (s : Net) (protocol srcIp : Nat) {len : Nat} (bound : len < 65536) :
    (ipDeliver s protocol srcIp len).Within packet limit ↔
      transportNeeds packet protocol len ≤ limit := by
  unfold ipDeliver transportNeeds
  split
  · simp only [within_bind, icmpReceive_within packet limit srcIp bound, within_pure, and_true]
  · split
    · simp only [within_bind, udpReceive_within, within_pure, and_true]
    · split
      · simp only [within_bind, tcpReceive_within, within_pure, and_true]
      · simp

end Transport

/-- The receive path reads inside the packet exactly if the packet fits. -/
theorem ip_receive_within_iff (s : Net) (packet : Bytes) (len : Nat) :
    (ipReceive s len).Within packet len ↔ PacketFits s packet len := by
  unfold ipReceive PacketFits
  by_cases short : len < ipHeaderLen
  · have dropped : ¬ IpAccepted s packet len := fun accepted => absurd accepted.1 (by omega)
    simp [short, dropped]
  · have room : 20 ≤ len := Nat.not_lt.mp short
    simp only [if_neg short, within_bind, within_byte, value_byte, within_ite, within_word32,
      within_word16, within_pure, within_shift]
    by_cases version : (packet 0).toNat / 16 = ipVersion
    · rw [if_neg (not_not_intro version)]
      by_cases foreign : s.netifIp ≠ 0 ∧ (word32 16).value packet ≠ s.netifIp ∧
          (word32 16).value packet ≠ 0xFFFFFFFF
      · rw [if_pos foreign]
        have dropped : ¬ IpAccepted s packet len := fun accepted => accepted.2.2 foreign
        exact iff_of_true ⟨by omega, by omega, by omega, trivial⟩ (absurd · dropped)
      · have accepted : IpAccepted s packet len := ⟨room, version, foreign⟩
        rw [if_neg foreign, ipDeliver_within _ _ _ _ _ (sub16_lt _ _)]
        change _ ∧ _ ∧ _ ∧ _ ∧ _ ∧ ipNeeds packet ≤ len - ipHdrLen packet ↔ _
        constructor
        · rintro ⟨_, _, _, _, _, fits⟩ _
          omega
        · intro fits
          have enough := fits accepted
          exact ⟨by omega, by omega, by omega, by omega, by omega, by omega⟩
    · rw [if_pos version]
      have dropped : ¬ IpAccepted s packet len := fun accepted => version accepted.2.1
      exact iff_of_true ⟨by omega, trivial⟩ (absurd · dropped)

/-- The shortest payload of an Ethernet frame, with a header that claims sixty bytes. -/
def oversizedHeader : Bytes := fun position =>
  if position = 0 then 0x4F else if position = 9 then 6 else 0

theorem oversized_header_read : ¬ ∀ s packet len, (ipReceive s len).Within packet len := by
  intro inside
  have read : 60 ∈ (ipReceive (Net.start 0 fun _ => 0) 46).reads oversizedHeader := by decide
  exact absurd (inside _ _ _ 60 read) (by decide)

end ZurichOS
