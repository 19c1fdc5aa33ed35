import ZurichOS.DhcpCore
import ZurichOS.ByteBuffer
import ZurichOS.Transitions

set_option linter.all false

/-!
Clients on one broadcast network.  A server's messages are numbered; any of them can reach
any client, at any time and any number of times.
-/

namespace ZurichOS

open Words ByteReader Transitions

/-! The two fields that tell one exchange from another. -/

def dhcpXid (data : Bytes) : Nat := (word32 4).value data

def dhcpChaddr (data : Bytes) : List UInt8 := ByteBuffer.bytesAt data 28 6

theorem bytesAt_ofList (before inside after : List UInt8) :
    ByteBuffer.bytesAt (ofList (before ++ inside ++ after)) before.length inside.length = inside := by
  apply List.ext_getElem (ByteBuffer.bytesAt_length _ _ _)
  intro i _ small
  have here : (before ++ (inside ++ after))[before.length + i]? = inside[i]? := by
    rw [List.getElem?_append_right (Nat.le_add_right _ _), Nat.add_sub_cancel_left,
      List.getElem?_append_left small]
  simp [ByteBuffer.bytesAt, ofList, here, small]

theorem dhcpPacket_chaddr (xid : Nat) (mac : Vector UInt8 6) (options : List UInt8) :
    dhcpChaddr (ofList (dhcpPacket xid mac options)) = mac.toList := by
  have field := bytesAt_ofList (dhcpFixed xid) mac.toList (dhcpRest options)
  rw [Vector.length_toList] at field
  exact field

/-- The type of a message `dhcp_receive` does not drop. -/
def dhcpType (d : Datagram) : Option Nat := (dhcpMessage d).map DhcpMessage.msgType

/-! One client. -/

/-- The message is an ACK, and the client takes it. -/
def dhcpBinds (c : DhcpClient) (d : Datagram) : Prop :=
  dhcpType d = some dhcpAckType ∧ c.state = .requesting

instance (c : DhcpClient) (d : Datagram) : Decidable (dhcpBinds c d) :=
  inferInstanceAs (Decidable (_ ∧ _))

/-- What a message does to a client: an OFFER makes it send a REQUEST, an ACK binds and
configures it, a NAK resets it, and no other message changes it. -/
theorem dhcpReceive_cases (c : DhcpClient) (d : Datagram) :
    dhcpReceive c d = c ∧ ¬ dhcpBinds c d ∧ dhcpType d ≠ some dhcpNakType ∨
      (∃ lease requestedIp serverIp, dhcpType d = some dhcpOfferType ∧ c.state = .selecting ∧
        dhcpReceive c d = dhcpRequest { c with lease } requestedIp serverIp) ∨
      (∃ m lease config, dhcpMessage d = some m ∧ m.msgType = dhcpAckType ∧
        c.state = .requesting ∧ config.ip = m.offeredIp ∧
        dhcpReceive c d = { c with lease, config, state := .bound }) ∨
      dhcpType d = some dhcpNakType ∧ dhcpReceive c d = { c with state := .init } := by
  rw [dhcpReceive, dhcpBinds, dhcpType]
  cases message : dhcpMessage d with
  | none => exact Or.inl ⟨rfl, fun binds => absurd binds.1 (by simp), by simp⟩
  | some m =>
      rw [Option.map_some, Option.some_inj, Option.some_inj, Option.some_inj]
      dsimp only
      split
      next offer => exact Or.inr (Or.inl ⟨_, _, _, offer.1, offer.2, rfl⟩)
      next noOffer =>
        split
        next ack => exact Or.inr (Or.inr (Or.inl ⟨m, _, _, rfl, ack.1, ack.2, rfl, rfl⟩))
        next noAck =>
          split
          next nak => exact Or.inr (Or.inr (Or.inr ⟨nak, rfl⟩))
          next noNak => exact Or.inl ⟨rfl, noAck, fun same => noNak (Option.some.inj same)⟩

/-! The network. -/

/-- The clients, the REQUEST that each has sent and that is not answered, and which message
has configured which client. -/
structure DhcpNetwork (ι : Type) where
  clients : ι → DhcpClient
  requests : ι → Option (List UInt8)
  configured : List (ι × Nat)

inductive DhcpEvent (ι : Type) where
  | init (i : ι)
  | discover (i : ι)
  | sent (i : ι)
  | deliver (i : ι) (number : Nat)

section Network

variable {ι : Type} (messages : Nat → Datagram)

def DhcpEvent.client : DhcpEvent ι → ι
  | .init i | .discover i | .sent i | .deliver i _ => i

def dhcpAct (c : DhcpClient) : DhcpEvent ι → DhcpClient
  | .init _ => dhcpInit c
  | .discover _ => dhcpDiscover c
  | .sent _ => dhcpSent c
  | .deliver _ number => dhcpReceive c (messages number)

/-- The REQUEST that is waiting for an answer once `udp_send` has returned. -/
def DhcpSend.asked (send : DhcpSend) : Option (List UInt8) :=
  match send.call with
  | .discover => none
  | .request => some send.packet

def dhcpAsked (c : DhcpClient) (request : Option (List UInt8)) :
    DhcpEvent ι → Option (List UInt8)
  | .init _ => none
  | .discover _ => request
  | .sent _ => (c.sending.head?.map DhcpSend.asked).getD request
  | .deliver _ number =>
      if dhcpBinds c (messages number) ∨ dhcpType (messages number) = some dhcpNakType then none
      else request

def dhcpConfigured (c : DhcpClient) : DhcpEvent ι → List (ι × Nat)
  | .deliver i number => if dhcpBinds c (messages number) then [(i, number)] else []
  | _ => []

variable [DecidableEq ι]

def dhcpStep (s : DhcpNetwork ι) (event : DhcpEvent ι) : DhcpNetwork ι :=
  let i := event.client
  let c := s.clients i
  ⟨Function.update s.clients i (dhcpAct messages c event),
    Function.update s.requests i (dhcpAsked messages c (s.requests i) event),
    dhcpConfigured messages c event ++ s.configured⟩

/-- The message carries the xid and the chaddr of the REQUEST the client waits for an answer
to. -/
def DhcpAnswers (s : DhcpNetwork ι) (i : ι) (d : Datagram) : Prop :=
  ∃ packet, s.requests i = some packet ∧ dhcpXid d.data = dhcpXid (ofList packet) ∧
    dhcpChaddr d.data = dhcpChaddr (ofList packet)

/-- An ACK that reaches a client in `DHCP_STATE_REQUESTING`, and a NAK that reaches one that
is not in `DHCP_STATE_INIT`, answer the client's own REQUEST. -/
def DhcpMatched (s : DhcpNetwork ι) (event : DhcpEvent ι) : Prop :=
  ∀ i number, event = .deliver i number →
    (dhcpBinds (s.clients i) (messages number) ∨
      dhcpType (messages number) = some dhcpNakType ∧ (s.clients i).state ≠ .init) →
    DhcpAnswers s i (messages number)

structure DhcpSound (s : DhcpNetwork ι) (event : DhcpEvent ι) : Prop where
  binds : ∀ i, ((dhcpStep messages s event).clients i).state = .bound →
    (s.clients i).state ≠ .bound →
    ∃ number, event = .deliver i number ∧ dhcpType (messages number) = some dhcpAckType ∧
      DhcpAnswers s i (messages number)
  naks : ∀ i number, event = .deliver i number →
    dhcpType (messages number) = some dhcpNakType → ¬ DhcpAnswers s i (messages number) →
    (dhcpStep messages s event).clients i = s.clients i
  configures : ∀ i, ((dhcpStep messages s event).clients i).config ≠ (s.clients i).config →
    ∃ number m, event = .deliver i number ∧ dhcpMessage (messages number) = some m ∧
      ((dhcpStep messages s event).clients i).config.ip = m.offeredIp ∧
      (i, number) ∈ (dhcpStep messages s event).configured
  apart : ∀ i j number, (i, number) ∈ (dhcpStep messages s event).configured →
    (j, number) ∈ (dhcpStep messages s event).configured → i = j

/-- What a client sends bears its own hardware address. -/
def DhcpClient.Own (c : DhcpClient) : Prop :=
  ∀ send ∈ c.sending, dhcpChaddr (ofList send.packet) = c.mac.toList

/-- Different clients have different hardware addresses, which are those of their packets,
and a client is configured by messages with its own. -/
structure DhcpKept (s : DhcpNetwork ι) : Prop where
  macs : ∀ i j, (s.clients i).mac = (s.clients j).mac → i = j
  own : ∀ i, (s.clients i).Own
  requests : ∀ i packet, s.requests i = some packet →
    dhcpChaddr (ofList packet) = (s.clients i).mac.toList
  configured : ∀ i number, (i, number) ∈ s.configured →
    dhcpChaddr (messages number).data = (s.clients i).mac.toList

end Network

/-- Under the invariant, two clients that one message configured have one hardware address. -/
theorem DhcpKept.apart {ι : Type} {messages : Nat → Datagram} {s : DhcpNetwork ι}
    (kept : DhcpKept messages s) {i j : ι} {number : Nat}
    (first : (i, number) ∈ s.configured) (second : (j, number) ∈ s.configured) : i = j := by
  have same := (kept.configured i number first).symm.trans (kept.configured j number second)
  exact kept.macs i j (Vector.toList_inj.mp same)

/-- The network at boot. -/
def dhcpBoot {ι : Type} (macs : ι → Vector UInt8 6) (configs : ι → NetifConfig) : DhcpNetwork ι :=
  ⟨fun i => .boot (macs i) (configs i), fun _ => none, []⟩

theorem dhcpBoot_kept {ι : Type} (messages : Nat → Datagram) {macs : ι → Vector UInt8 6}
    (different : Function.Injective macs) (configs : ι → NetifConfig) :
    DhcpKept messages (dhcpBoot macs configs) := by
  refine ⟨fun _ _ same => different same, fun _ _ member => absurd member List.not_mem_nil, ?_,
    fun _ _ member => absurd member List.not_mem_nil⟩
  intro i packet asked
  cases asked

/-! One event of one client. -/

theorem DhcpClient.Own.send {c : DhcpClient} (own : c.Own) (call : DhcpCall)
    (options : List UInt8) : (dhcpSend c call options).Own := by
  intro send member
  obtain rfl | old := List.mem_cons.mp member
  · exact dhcpPacket_chaddr _ _ _
  · exact own send old

theorem DhcpSend.asked_some {send : DhcpSend} {packet : List UInt8}
    (asked : send.asked = some packet) : send.packet = packet := by
  unfold DhcpSend.asked at asked
  cases call : send.call with
  | discover =>
      rw [call] at asked
      cases asked
  | request =>
      rw [call] at asked
      exact Option.some.inj asked

theorem dhcpSent_mac (c : DhcpClient) : (dhcpSent c).mac = c.mac := by
  rw [dhcpSent]
  split <;> rfl

theorem DhcpClient.Own.sent {c : DhcpClient} (own : c.Own) : (dhcpSent c).Own := by
  intro send member
  rw [dhcpSent_mac]
  rw [dhcpSent] at member
  split at member
  next => exact own send member
  next first rest pending => exact own send (pending ▸ List.mem_cons_of_mem first member)

theorem dhcpReceive_own {c : DhcpClient} (own : c.Own) (d : Datagram) :
    (dhcpReceive c d).mac = c.mac ∧ (dhcpReceive c d).Own := by
  obtain ⟨same, -⟩ | ⟨lease, ip, server, -, -, same⟩ | ⟨m, lease, config, -, -, -, -, same⟩ |
    ⟨-, same⟩ := dhcpReceive_cases c d
  · rw [same]
    exact ⟨rfl, own⟩
  · rw [same]
    exact ⟨rfl, DhcpClient.Own.send own _ _⟩
  · rw [same]
    exact ⟨rfl, own⟩
  · rw [same]
    exact ⟨rfl, own⟩

section Act

variable {ι : Type} (messages : Nat → Datagram) {c : DhcpClient}

theorem dhcpAct_own (own : c.Own) (event : DhcpEvent ι) :
    (dhcpAct messages c event).mac = c.mac ∧ (dhcpAct messages c event).Own := by
  cases event with
  | init i => exact ⟨rfl, own⟩
  | discover i => exact ⟨rfl, own.send _ _⟩
  | sent i => exact ⟨dhcpSent_mac c, own.sent⟩
  | deliver i number => exact dhcpReceive_own own _

theorem dhcpAsked_own (own : c.Own) {request : Option (List UInt8)}
    (asked : ∀ packet, request = some packet → dhcpChaddr (ofList packet) = c.mac.toList)
    (event : DhcpEvent ι) (packet : List UInt8)
    (later : dhcpAsked messages c request event = some packet) :
    dhcpChaddr (ofList packet) = c.mac.toList := by
  cases event with
  | init i => cases later
  | discover i => exact asked packet later
  | sent i =>
      rw [dhcpAsked] at later
      cases pending : c.sending with
      | nil =>
          rw [pending] at later
          exact asked packet later
      | cons send rest =>
          rw [pending] at later
          rw [← DhcpSend.asked_some later]
          exact own send (pending ▸ List.mem_cons_self)
  | deliver i number =>
      rw [dhcpAsked] at later
      split at later
      next => cases later
      next => exact asked packet later

theorem dhcpConfigured_mem {event : DhcpEvent ι} {i : ι} {number : Nat}
    (member : (i, number) ∈ dhcpConfigured messages c event) :
    event = .deliver i number ∧ dhcpBinds c (messages number) := by
  cases event with
  | init j => cases member
  | discover j => cases member
  | sent j => cases member
  | deliver j sent =>
      rw [dhcpConfigured] at member
      split at member
      next binds =>
        cases List.mem_singleton.mp member
        exact ⟨rfl, binds⟩
      next => cases member

/-- A client becomes bound by an ACK that it takes. -/
theorem dhcpAct_bound {event : DhcpEvent ι} (bound : (dhcpAct messages c event).state = .bound)
    (before : c.state ≠ .bound) :
    ∃ number, event = .deliver event.client number ∧ dhcpBinds c (messages number) := by
  cases event with
  | init i => cases bound
  | discover i => exact absurd bound before
  | sent i =>
      rw [dhcpAct, dhcpSent] at bound
      split at bound
      next => exact absurd bound before
      next send rest pending => cases call : send.call <;> rw [call] at bound <;> cases bound
  | deliver i number =>
      refine ⟨number, rfl, ?_⟩
      obtain ⟨same, -⟩ | ⟨lease, ip, server, -, -, same⟩ | ⟨m, lease, config, found, ack, waits, -⟩ |
        ⟨-, same⟩ := dhcpReceive_cases c (messages number)
      · rw [dhcpAct, same] at bound
        exact absurd bound before
      · rw [dhcpAct, same] at bound
        exact absurd bound before
      · refine ⟨?_, waits⟩
        rw [dhcpType, found, Option.map_some, ack]
      · rw [dhcpAct, same] at bound
        cases bound

/-- Only an ACK that it takes configures a client, with the address that it offers. -/
theorem dhcpAct_config {event : DhcpEvent ι}
    (changed : (dhcpAct messages c event).config ≠ c.config) :
    ∃ number m, event = .deliver event.client number ∧ dhcpMessage (messages number) = some m ∧
      (dhcpAct messages c event).config.ip = m.offeredIp ∧
      dhcpBinds c (messages number) := by
  cases event with
  | init i => exact absurd rfl changed
  | discover i => exact absurd rfl changed
  | sent i =>
      rw [dhcpAct, dhcpSent] at changed
      split at changed <;> exact absurd rfl changed
  | deliver i number =>
      obtain ⟨same, -⟩ | ⟨lease, ip, server, -, -, same⟩ |
        ⟨m, lease, config, found, ack, waits, address, same⟩ | ⟨-, same⟩ :=
        dhcpReceive_cases c (messages number)
      · rw [dhcpAct, same] at changed
        exact absurd rfl changed
      · rw [dhcpAct, same] at changed
        exact absurd rfl changed
      · refine ⟨number, m, rfl, found, ?_, ?_, waits⟩
        · rw [dhcpAct, same]
          exact address
        · rw [dhcpType, found, Option.map_some, ack]
      · rw [dhcpAct, same] at changed
        exact absurd rfl changed

/-- A NAK resets any client. -/
theorem dhcpReceive_nak {d : Datagram} (nak : dhcpType d = some dhcpNakType) :
    dhcpReceive c d = { c with state := .init } := by
  obtain ⟨-, -, noNak⟩ | ⟨lease, ip, server, offer, -⟩ | ⟨m, lease, config, found, ack, -⟩ |
    ⟨-, same⟩ := dhcpReceive_cases c d
  · exact absurd nak noNak
  · exact absurd (nak.symm.trans offer) (by decide)
  · rw [dhcpType, found, Option.map_some, ack] at nak
    exact absurd nak (by decide)
  · exact same

theorem dhcpReceive_binds {d : Datagram} (binds : dhcpBinds c d) :
    (dhcpReceive c d).state = .bound := by
  obtain ⟨-, noBinds, -⟩ | ⟨lease, ip, server, offer, -⟩ | ⟨m, lease, config, -, -, -, -, same⟩ |
    ⟨nak, -⟩ := dhcpReceive_cases c d
  · exact absurd binds noBinds
  · exact absurd (binds.1.symm.trans offer) (by decide)
  · rw [same]
  · exact absurd (binds.1.symm.trans nak) (by decide)

end Act

section Network

variable {ι : Type} [DecidableEq ι] {messages : Nat → Datagram} {s : DhcpNetwork ι}

theorem dhcpStep_client (event : DhcpEvent ι) :
    (dhcpStep messages s event).clients event.client =
      dhcpAct messages (s.clients event.client) event := by
  simp [dhcpStep]

theorem dhcpStep_other {event : DhcpEvent ι} {i : ι} (other : i ≠ event.client) :
    (dhcpStep messages s event).clients i = s.clients i := by
  simp [dhcpStep, other]

theorem dhcpStep_delivered (i : ι) (number : Nat) :
    (dhcpStep messages s (.deliver i number)).clients i =
      dhcpReceive (s.clients i) (messages number) :=
  dhcpStep_client (.deliver i number)

theorem dhcpStep_request (event : DhcpEvent ι) :
    (dhcpStep messages s event).requests event.client =
      dhcpAsked messages (s.clients event.client) (s.requests event.client) event := by
  simp [dhcpStep]

theorem dhcpStep_request_other {event : DhcpEvent ι} {i : ι} (other : i ≠ event.client) :
    (dhcpStep messages s event).requests i = s.requests i := by
  simp [dhcpStep, other]

theorem dhcpStep_own (kept : DhcpKept messages s) (event : DhcpEvent ι) (i : ι) :
    ((dhcpStep messages s event).clients i).mac = (s.clients i).mac ∧
      ((dhcpStep messages s event).clients i).Own := by
  by_cases mine : i = event.client
  · subst mine
    rw [dhcpStep_client]
    exact dhcpAct_own messages (kept.own _) event
  · rw [dhcpStep_other mine]
    exact ⟨rfl, kept.own i⟩

theorem dhcpStep_requests (kept : DhcpKept messages s) (event : DhcpEvent ι) (i : ι)
    (packet : List UInt8) (asked : (dhcpStep messages s event).requests i = some packet) :
    dhcpChaddr (ofList packet) = (s.clients i).mac.toList := by
  by_cases mine : i = event.client
  · subst mine
    rw [dhcpStep_request] at asked
    exact dhcpAsked_own messages (kept.own _) (kept.requests _) event packet asked
  · rw [dhcpStep_request_other mine] at asked
    exact kept.requests i packet asked

theorem dhcpStep_configured (kept : DhcpKept messages s) {event : DhcpEvent ι}
    (matched : DhcpMatched messages s event) (i : ι) (number : Nat)
    (member : (i, number) ∈ (dhcpStep messages s event).configured) :
    dhcpChaddr (messages number).data = (s.clients i).mac.toList := by
  rw [dhcpStep] at member
  obtain new | old := List.mem_append.mp member
  · obtain ⟨rfl, binds⟩ := dhcpConfigured_mem messages new
    obtain ⟨packet, asked, -, same⟩ := matched i number rfl (Or.inl binds)
    exact same.trans (kept.requests i packet asked)
  · exact kept.configured i number old

theorem dhcpStep_kept (kept : DhcpKept messages s) {event : DhcpEvent ι}
    (matched : DhcpMatched messages s event) : DhcpKept messages (dhcpStep messages s event) := by
  have mac (i : ι) := (dhcpStep_own kept event i).1
  refine ⟨?_, fun i => (dhcpStep_own kept event i).2, ?_, ?_⟩
  · intro i j same
    rw [mac, mac] at same
    exact kept.macs i j same
  · intro i packet asked
    rw [mac]
    exact dhcpStep_requests kept event i packet asked
  · intro i number member
    rw [mac]
    exact dhcpStep_configured kept matched i number member

theorem DhcpSound.matched {event : DhcpEvent ι} (sound : DhcpSound messages s event) :
    DhcpMatched messages s event := by
  rintro i number rfl (binds | ⟨nak, active⟩)
  · have bound : ((dhcpStep messages s (.deliver i number)).clients i).state = .bound := by
      rw [dhcpStep_delivered]
      exact dhcpReceive_binds binds
    have before : (s.clients i).state ≠ .bound := by
      rw [binds.2]
      decide
    obtain ⟨other, same, -, answers⟩ := sound.binds i bound before
    cases same
    exact answers
  · by_contra foreign
    have unchanged := sound.naks i number rfl nak foreign
    rw [dhcpStep_delivered, dhcpReceive_nak nak] at unchanged
    exact active (congrArg DhcpClient.state unchanged).symm

theorem dhcpStep_sound (kept : DhcpKept messages s) {event : DhcpEvent ι}
    (matched : DhcpMatched messages s event) : DhcpSound messages s event := by
  refine ⟨?_, ?_, ?_, fun i j number => (dhcpStep_kept kept matched).apart⟩
  · intro i bound before
    by_cases mine : i = event.client
    · subst mine
      rw [dhcpStep_client] at bound
      obtain ⟨number, deliver, binds⟩ := dhcpAct_bound messages bound before
      exact ⟨number, deliver, binds.1, matched _ number deliver (Or.inl binds)⟩
    · rw [dhcpStep_other mine] at bound
      exact absurd bound before
  · rintro i number rfl nak foreign
    have idle : (s.clients i).state = .init := by
      by_contra active
      exact foreign (matched i number rfl (Or.inr ⟨nak, active⟩))
    rw [dhcpStep_delivered, dhcpReceive_nak nak, ← idle]
  · intro i changed
    by_cases mine : i = event.client
    · subst mine
      rw [dhcpStep_client] at changed ⊢
      obtain ⟨number, m, deliver, found, address, binds⟩ := dhcpAct_config messages changed
      refine ⟨number, m, deliver, found, address, List.mem_append_left _ ?_⟩
      rw [deliver, dhcpConfigured, if_pos]
      · exact List.mem_singleton_self _
      · exact binds
    · rw [dhcpStep_other mine] at changed
      exact absurd rfl changed

/-- In a run of clients with different hardware addresses, no client is bound or reset by a
message that does not answer its own REQUEST, and no message configures two clients, if and
only if every ACK and NAK acted upon is for the client it reaches. -/
theorem dhcp_run (messages : Nat → Datagram) {macs : ι → Vector UInt8 6}
    (different : Function.Injective macs) (configs : ι → NetifConfig)
    (events : List (DhcpEvent ι)) :
    Along (dhcpStep messages) (DhcpSound messages) (dhcpBoot macs configs) events ↔
      Along (dhcpStep messages) (DhcpMatched messages) (dhcpBoot macs configs) events :=
  along_congr (DhcpKept messages) (fun _ _ kept met => dhcpStep_kept kept met)
    (fun _ _ kept => ⟨DhcpSound.matched, dhcpStep_sound kept⟩)
    (dhcpBoot_kept messages different configs) events

end Network

/-- A server's message for one exchange, with the one option that gives its type. -/
def dhcpReply (type xid : Nat) (mac : Vector UInt8 6) (offeredIp : Nat) : Datagram :=
  let before := [2, 1, 6, 0] ++ be32 xid ++ List.replicate 8 0 ++ be32 offeredIp ++
    List.replicate 8 0
  let options := dhcpAddOption dhcpOptMsgType [.ofNat type] ++ [.ofNat dhcpOptEnd]
  let bytes := before ++ mac.toList ++ List.replicate 202 0 ++ be32 dhcpMagicCookie ++ options
  ⟨ofList bytes, bytes.length⟩

/-- Two clients with different hardware addresses. -/
def twoMacs (second : Bool) : Vector UInt8 6 :=
  ⟨#[2, 0, 0, 0, 0, if second then 2 else 1], rfl⟩

/-- An OFFER and an ACK for the first client. -/
def firstReplies (number : Nat) : Datagram :=
  if number = 0 then dhcpReply dhcpOfferType 0x12345678 (twoMacs false) 0x0A000005
  else dhcpReply dhcpAckType 0x12345679 (twoMacs false) 0x0A000005

theorem twoMacs_injective : Function.Injective twoMacs := by
  unfold Function.Injective
  decide

theorem dhcp_run_boot :
    Along (dhcpStep firstReplies) (DhcpSound firstReplies) (dhcpBoot twoMacs fun _ => ⟨0, 0, 0⟩)
      [.discover false, .sent false, .deliver false 0, .sent false, .deliver false 1] := by
  refine (dhcp_run firstReplies twoMacs_injective _ _).mpr ⟨?_, ?_, ?_, ?_, ?_, trivial⟩
  · intro i number deliver
    cases deliver
  · intro i number deliver
    cases deliver
  · rintro i number deliver (binds | nak)
    · cases deliver
      exact absurd binds.1 (by decide +kernel)
    · cases deliver
      exact absurd nak.1 (by decide +kernel)
  · intro i number deliver
    cases deliver
  · rintro i number deliver -
    cases deliver
    refine ⟨dhcpPacket 0x12345679 (twoMacs false) (dhcpAddOption 53 [3] ++
      dhcpAddOption 50 (be32 0x0A000005) ++ dhcpAddOption 54 (be32 0) ++ [255]), ?_, ?_, ?_⟩
    · decide +kernel
    · decide
    · decide

/-- Both clients are offered, and both are configured by, what the server gave the first. -/
theorem dhcp_ack_shared :
    let exchange (i : Bool) : List (DhcpEvent Bool) :=
      [.discover i, .sent i, .deliver i 0, .sent i]
    let events := exchange false ++ [.deliver false 1] ++ exchange true
    let boot := dhcpBoot twoMacs fun _ => ⟨0, 0, 0⟩
    let s := (events ++ [.deliver true 1]).foldl (dhcpStep firstReplies) boot
    twoMacs false ≠ twoMacs true ∧ dhcpType (firstReplies 1) = some dhcpAckType ∧
      dhcpChaddr (firstReplies 1).data = (twoMacs false).toList ∧
      (s.clients false).state = .bound ∧ (s.clients false).config.ip = 0x0A000005 ∧
      (s.clients true).state = .bound ∧ (s.clients true).config.ip = 0x0A000005 ∧
      ¬ Along (dhcpStep firstReplies) (DhcpSound firstReplies) boot
        (events ++ [.deliver true 1]) := by
  intro exchange events boot s
  refine ⟨by decide, by decide +kernel, by decide +kernel, by decide +kernel, by decide +kernel,
    by decide +kernel, by decide +kernel, fun sound => ?_⟩
  have last : s = dhcpStep firstReplies (events.foldl (dhcpStep firstReplies) boot)
      (.deliver true 1) := List.foldl_append
  have configured : s.configured = [(true, 1), (false, 1)] := by decide +kernel
  rw [last] at configured
  have same := sound.last.apart false true 1
  rw [configured] at same
  exact absurd (same (by decide) (by decide)) (by decide)

end ZurichOS
