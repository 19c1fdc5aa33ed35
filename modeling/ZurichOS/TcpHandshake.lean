import ZurichOS.NetReceiveCore
import ZurichOS.Transitions

set_option linter.all false

/-!
Establishing a TCP connection.  A run is a sequence of local calls and of segments that
arrive, with the history of the SYNs sent and of the acknowledgement numbers received for
each connection; the invariant ties the sequence number of a connection being opened to
the SYN sent for it.
-/

namespace ZurichOS

open Words ByteReader Transitions

inductive TcpCall where
  | connect (destIp destPort : Nat)
  | listen (port : Nat)
  | accept (listener : Option Nat)
  | send (conn : Option Nat) (data len : Nat)
  | recv (conn : Option Nat) (buffer maxLen : Nat)
  | close (conn : Option Nat)
  | segment (srcIp : Nat) (packet : Bytes) (len : Nat)

def tcpCall (s : Net) : TcpCall → Net
  | .connect destIp destPort => ((tcpConnect s destIp destPort).map Prod.snd).getD s
  | .listen port => ((tcpListen s port).map Prod.snd).getD s
  | .accept _ => s
  | .send conn data len => (tcpSend s conn data len).2
  | .recv conn buffer maxLen => (tcpRecv s conn buffer maxLen).2
  | .close conn => tcpClose s conn
  | .segment srcIp packet len => (tcpReceive s srcIp len).value packet

/-! The fields of a segment. -/

def segmentSrcPort (packet : Bytes) : Nat := (word16 0).value packet
def segmentDestPort (packet : Bytes) : Nat := (word16 2).value packet
def segmentSeq (packet : Bytes) : Nat := (word32 4).value packet
def segmentAck (packet : Bytes) : Nat := (word32 8).value packet
def segmentFlags (packet : Bytes) : Nat := (packet 13).toNat

def segmentTarget (s : Net) (srcIp : Nat) (packet : Bytes) (len : Nat) : Option Nat :=
  if len < 20 then none else tcpLookup s srcIp (segmentSrcPort packet) (segmentDestPort packet)

/-! The history of the numbers sent and received. -/

inductive TcpEvent where
  | syn (index seq : Nat)
  | segment (index ack : Nat)

def Packet.synSeq : Packet → Option Nat
  | .tcp _ _ _ seq _ flags _ => if hasFlag flags tcpSyn then some seq else none
  | .udp .. => none

def TcpCall.target (s : Net) : TcpCall → Option Nat
  | .connect _ _ | .listen _ => (tcpAllocConn s).map Prod.fst
  | .accept _ => none
  | .send conn _ _ | .recv conn _ _ | .close conn => conn
  | .segment srcIp packet len => segmentTarget s srcIp packet len

def synsSent (s : Net) (call : TcpCall) : List Nat :=
  ((tcpCall s call).sent.drop s.sent.length).filterMap Packet.synSeq

def TcpCall.received (index : Nat) : TcpCall → List TcpEvent
  | .segment _ packet _ => [.segment index (segmentAck packet)]
  | _ => []

/-- What a call adds to the history, newest first. -/
def tcpEvents (s : Net) (call : TcpCall) : List TcpEvent :=
  match call.target s with
  | none => []
  | some index => (synsSent s call).reverse.map (.syn index) ++ call.received index

def lastSyn (index : Nat) : List TcpEvent → Option Nat
  | [] => none
  | .syn i seq :: earlier => if i = index then some seq else lastSyn index earlier
  | .segment _ _ :: earlier => lastSyn index earlier

/-- Since the last SYN sent for the connection, a segment has acknowledged the number
after it. -/
def synAcked (index : Nat) : List TcpEvent → Bool
  | [] => false
  | .syn i _ :: earlier => i ≠ index && synAcked index earlier
  | .segment i ack :: earlier =>
      (i = index && (lastSyn index earlier).any fun seq => ack = u32 (seq + 1)) ||
        synAcked index earlier

structure TcpRun where
  net : Net
  history : List TcpEvent

def tcpStep (r : TcpRun) (call : TcpCall) : TcpRun :=
  ⟨tcpCall r.net call, tcpEvents r.net call ++ r.history⟩

def TcpRun.start (netifIp : Nat) (memory : Nat → Nat) : TcpRun := ⟨Net.start netifIp memory, []⟩

def TcpCall.CarriesRst : TcpCall → Prop
  | .segment _ packet _ => hasFlag (segmentFlags packet) tcpRst
  | _ => False

/-- A connection the call establishes has had its SYN acknowledged, and not by a segment
that resets it. -/
def HandshakeSafe (r : TcpRun) (call : TcpCall) : Prop :=
  ∀ i, (r.net.connections i).state ≠ .established →
    ((tcpStep r call).net.connections i).state = .established →
      synAcked i (tcpStep r call).history = true ∧ ¬ call.CarriesRst

/-- The state and flags for which the state machine establishes a connection. -/
def Establishes (state : TcpState) (flags : Nat) : Prop :=
  (state = .synSent ∧ hasFlag flags tcpSyn ∧ hasFlag flags tcpAck) ∨
    (state = .synReceived ∧ hasFlag flags tcpAck)

/-- A segment that establishes a connection carries no RST and acknowledges its SYN, unless
an earlier one did. -/
def HandshakeCareful (r : TcpRun) (call : TcpCall) : Prop :=
  ∀ srcIp packet len i, call = .segment srcIp packet len →
    segmentTarget r.net srcIp packet len = some i →
    Establishes (r.net.connections i).state (segmentFlags packet) →
      ¬ hasFlag (segmentFlags packet) tcpRst ∧
        (segmentAck packet = (r.net.connections i).seq ∨ synAcked i r.history = true)

section Packets

variable (s : Net) (index : Nat)

@[simp] theorem setConn_same (conn : TcpConn) : (s.setConn index conn).connections index = conn :=
  if_pos rfl

theorem setConn_other {i : Nat} (conn : TcpConn) (other : i ≠ index) :
    (s.setConn index conn).connections i = s.connections i := if_neg other

@[simp] theorem setConn_sent (conn : TcpConn) : (s.setConn index conn).sent = s.sent := rfl

@[simp] theorem tcpSendPacket_connections (flags data len : Nat) :
    (tcpSendPacket s index flags data len).connections = s.connections := by
  unfold tcpSendPacket
  split <;> rfl

theorem tcpSendPacket_sent (flags data len : Nat) :
    ∃ packet, (tcpSendPacket s index flags data len).sent = s.sent ++ [packet] ∧
      packet.synSeq = if hasFlag flags tcpSyn then some (s.connections index).seq else none := by
  unfold tcpSendPacket
  split <;> exact ⟨_, rfl, rfl⟩

theorem synsSent_of_append {call : TcpCall} (packets : List Packet)
    (sent : (tcpCall s call).sent = s.sent ++ packets) :
    synsSent s call = packets.filterMap Packet.synSeq := by
  rw [synsSent, sent, List.drop_left]

theorem synsSent_none {call : TcpCall} (sent : (tcpCall s call).sent = s.sent) :
    synsSent s call = [] :=
  synsSent_of_append s [] (by rw [sent, List.append_nil])

theorem synsSent_packet {call : TcpCall} {after : Net} {flags data len : Nat}
    (sent : (tcpCall s call).sent = (tcpSendPacket after index flags data len).sent)
    (kept : after.sent = s.sent) :
    synsSent s call = if hasFlag flags tcpSyn then [(after.connections index).seq] else [] := by
  obtain ⟨packet, appended, syn⟩ := tcpSendPacket_sent after index flags data len
  rw [synsSent_of_append s [packet] (by rw [sent, appended, kept]),
    List.filterMap_cons, syn]
  split_ifs <;> rfl

end Packets

section Receive

variable (s : Net) (srcIp : Nat) (packet : Bytes) (len : Nat)

def tcpDispatch (index : Nat) : Net :=
  match (s.connections index).state with
  | .listen =>
      tcpReceiveListen s index srcIp (segmentSrcPort packet) (segmentSeq packet)
        (segmentFlags packet)
  | .synSent => tcpReceiveSynSent s index (segmentSeq packet) (segmentFlags packet)
  | .synReceived => tcpReceiveSynReceived s index (segmentFlags packet)
  | .established =>
      (tcpReceiveEstablished s index (segmentSeq packet) (segmentFlags packet) len).value packet
  | _ => s

theorem tcpReceive_value :
    (tcpReceive s srcIp len).value packet =
      ((segmentTarget s srcIp packet len).map (tcpDispatch s srcIp packet len)).getD s := by
  unfold tcpReceive segmentTarget
  split
  · rfl
  · simp only [value_bind]
    change (match tcpLookup s srcIp (segmentSrcPort packet) (segmentDestPort packet) with
      | none => _
      | some index => _ : Reader Net).value packet = _
    cases tcpLookup s srcIp (segmentSrcPort packet) (segmentDestPort packet) with
    | none => rfl
    | some index =>
        simp only [Option.map_some, Option.getD_some, tcpDispatch]
        cases (s.connections index).state <;> rfl

end Receive

/-- The connection found for a segment: it has the segment's addresses, or it listens on the
port. -/
theorem segmentTarget_cases {s : Net} {srcIp : Nat} {packet : Bytes} {len index : Nat}
    (target : segmentTarget s srcIp packet len = some index) :
    index < maxTcpConnections ∧ (s.connections index).inUse = true ∧
      ((s.connections index).remoteIp = srcIp ∧
          (s.connections index).remotePort = segmentSrcPort packet ∧
          (s.connections index).localPort = segmentDestPort packet ∨
        (s.connections index).state = .listen ∧
          (s.connections index).localPort = segmentDestPort packet) := by
  unfold segmentTarget at target
  split at target
  · cases target
  · rcases Option.or_eq_some_iff.mp target with found | ⟨_, found⟩
    · have bound := List.mem_range.mp (List.mem_of_find?_eq_some found)
      have met := List.find?_some found
      obtain ⟨inUse, addressed⟩ := of_decide_eq_true met
      exact ⟨bound, inUse, Or.inl addressed⟩
    · have bound := List.mem_range.mp (List.mem_of_find?_eq_some found)
      have met := List.find?_some found
      obtain ⟨inUse, listening⟩ := of_decide_eq_true met
      exact ⟨bound, inUse, Or.inr listening⟩

def Opening (state : TcpState) : Prop := state = .synSent ∨ state = .synReceived

theorem lastSyn_other {index i : Nat} (other : i ≠ index) (s : Net) (call : TcpCall)
    (target : call.target s = some index) (history : List TcpEvent) :
    lastSyn i (tcpEvents s call ++ history) = lastSyn i history := by
  have skipped : ∀ seqs : List Nat, ∀ later,
      lastSyn i (seqs.map (.syn index) ++ later) = lastSyn i later := by
    intro seqs later
    induction seqs with
    | nil => rfl
    | cons seq rest ih => rw [List.map_cons, List.cons_append, lastSyn, if_neg other.symm, ih]
  rw [tcpEvents, target]
  simp only [List.append_assoc, skipped]
  cases call <;> rfl

theorem lastSyn_quiet {i : Nat} {s : Net} {call : TcpCall} (sent : synsSent s call = [])
    (history : List TcpEvent) :
    lastSyn i (tcpEvents s call ++ history) = lastSyn i history := by
  rw [tcpEvents]
  cases call.target s with
  | none => rfl
  | some index =>
      simp only [sent, List.reverse_nil, List.map_nil, List.nil_append]
      cases call <;> rfl

theorem lastSyn_sent {i seq : Nat} {s : Net} {call : TcpCall} (target : call.target s = some i)
    (sent : synsSent s call = [seq]) (history : List TcpEvent) :
    lastSyn i (tcpEvents s call ++ history) = some seq := by
  simp [tcpEvents, target, sent, lastSyn]

inductive ConnStep (r : TcpRun) (call : TcpCall) (i : Nat) : Prop
  | kept (state : ((tcpStep r call).net.connections i).state = (r.net.connections i).state)
      (seq : Opening (r.net.connections i).state →
        ((tcpStep r call).net.connections i).seq = (r.net.connections i).seq)
      (syn : lastSyn i (tcpStep r call).history = lastSyn i r.history)
  | left (opening : ¬ Opening ((tcpStep r call).net.connections i).state)
      (established : ((tcpStep r call).net.connections i).state ≠ .established)
  | opened (first : Nat) (opening : Opening ((tcpStep r call).net.connections i).state)
      (syn : lastSyn i (tcpStep r call).history = some first)
      (seq : ((tcpStep r call).net.connections i).seq = u32 (first + 1))
  | established (srcIp : Nat) (packet : Bytes) (len : Nat)
      (isSegment : call = .segment srcIp packet len)
      (target : segmentTarget r.net srcIp packet len = some i)
      (establishes : Establishes (r.net.connections i).state (segmentFlags packet))

section Calls

variable {r : TcpRun} {i : Nat}

theorem ConnStep.unchanged {call : TcpCall}
    (connections : (tcpCall r.net call).connections i = r.net.connections i)
    (syn : lastSyn i (tcpStep r call).history = lastSyn i r.history) : ConnStep r call i :=
  .kept (congrArg TcpConn.state connections) (fun _ => congrArg TcpConn.seq connections) syn

theorem tcpAllocConn_some {s : Net} {index : Nat} {after : Net}
    (found : tcpAllocConn s = some (index, after)) :
    after = s.setConn index { TcpConn.zero with inUse := true } := by
  simp only [tcpAllocConn, Option.bind_eq_bind, Option.bind_eq_some_iff, Option.pure_def,
    Option.some.injEq, Prod.mk.injEq] at found
  obtain ⟨_, _, rfl, rfl⟩ := found
  rfl

theorem tcpAllocConn_free {s : Net} {index : Nat} {after : Net}
    (found : tcpAllocConn s = some (index, after)) :
    index < maxTcpConnections ∧ (s.connections index).inUse = false := by
  simp only [tcpAllocConn, Option.bind_eq_bind, Option.bind_eq_some_iff, Option.pure_def,
    Option.some.injEq, Prod.mk.injEq] at found
  obtain ⟨_, first, rfl, _⟩ := found
  have free := List.find?_some first
  exact ⟨List.mem_range.mp (List.mem_of_find?_eq_some first), by simpa using free⟩

def TcpConn.connecting (localIp destIp destPort : Nat) : TcpConn :=
  ⟨localIp, destIp, 49152 + destPort % 16384, destPort, 1000, 0, .synSent, 0, 0, true⟩

theorem tcpCall_connect {s : Net} {index : Nat} {after : Net} (destIp destPort : Nat)
    (found : tcpAllocConn s = some (index, after)) :
    tcpCall s (.connect destIp destPort) =
      (tcpSendPacket (after.setConn index (.connecting s.netifIp destIp destPort))
        index tcpSyn 0 0).setConn index
          { TcpConn.connecting s.netifIp destIp destPort with seq := 1001 } := by
  obtain rfl := tcpAllocConn_some found
  simp only [tcpCall, tcpConnect, found, Option.bind_eq_bind, Option.bind_some, Option.pure_def,
    Option.map_some, Option.getD_some, setConn_same]
  rfl

theorem connect_step (destIp destPort : Nat) : ConnStep r (.connect destIp destPort) i := by
  cases found : tcpAllocConn r.net with
  | none =>
      have same : tcpCall r.net (.connect destIp destPort) = r.net := by
        simp [tcpCall, tcpConnect, found]
      exact .unchanged (by rw [same]) (lastSyn_quiet (synsSent_none _ (by rw [same])) _)
  | some allocated =>
      obtain ⟨index, after⟩ := allocated
      have target : (TcpCall.connect destIp destPort).target r.net = some index := by
        simp [TcpCall.target, found]
      have result := tcpCall_connect destIp destPort found
      obtain rfl := tcpAllocConn_some found
      by_cases same : i = index
      · subst same
        have syns : synsSent r.net (.connect destIp destPort) = [1000] := by
          have sent := congrArg Net.sent result
          rw [setConn_sent] at sent
          rw [synsSent_packet r.net i sent rfl, if_pos (by decide)]
          simp [TcpConn.connecting]
        refine .opened 1000 (Or.inl ?_) (lastSyn_sent target syns _) ?_
        · simp [tcpStep, result, TcpConn.connecting]
        · simp [tcpStep, result, u32]
      · refine .unchanged ?_ (lastSyn_other same _ _ target _)
        simp [result, setConn_other, same]

theorem listen_step (port : Nat) : ConnStep r (.listen port) i := by
  cases found : tcpAllocConn r.net with
  | none =>
      have same : tcpCall r.net (.listen port) = r.net := by
        simp [tcpCall, tcpListen, found]
      exact .unchanged (by rw [same]) (lastSyn_quiet (synsSent_none _ (by rw [same])) _)
  | some allocated =>
      obtain ⟨index, after⟩ := allocated
      have fresh := tcpAllocConn_some found
      have sent : (tcpCall r.net (.listen port)).sent = r.net.sent := by
        simp [tcpCall, tcpListen, found, fresh]
      by_cases same : i = index
      · subst same
        refine .left ?_ ?_ <;> simp [tcpStep, tcpCall, tcpListen, found, Opening]
      · refine .unchanged ?_ (lastSyn_quiet (synsSent_none _ sent) _)
        simp [tcpCall, tcpListen, found, setConn_other, same, fresh]

theorem ConnStep.quiet {call : TcpCall} (index : Nat)
    (syns : synsSent r.net call = [])
    (others : ∀ i, i ≠ index →
      (tcpCall r.net call).connections i = r.net.connections i)
    (state : ((tcpCall r.net call).connections index).state = (r.net.connections index).state)
    (seq : Opening (r.net.connections index).state →
      ((tcpCall r.net call).connections index).seq = (r.net.connections index).seq) :
    ConnStep r call i := by
  by_cases same : i = index
  · subst same
    exact .kept state seq (lastSyn_quiet syns _)
  · exact .unchanged (others i same) (lastSyn_quiet syns _)

theorem send_step (conn : Option Nat) (data len : Nat) : ConnStep r (.send conn data len) i := by
  have idle (same : tcpCall r.net (.send conn data len) = r.net) :
      ConnStep r (.send conn data len) i :=
    .unchanged (by rw [same]) (lastSyn_quiet (synsSent_none _ (by rw [same])) _)
  cases conn with
  | none => exact idle rfl
  | some index =>
      by_cases open' : (r.net.connections index).state = .established
      · have result : tcpCall r.net (.send (some index) data len) =
            (tcpSendPacket r.net index (tcpAck ||| tcpPsh) data len).setConn index
              { r.net.connections index with seq := u32 ((r.net.connections index).seq + len) } := by
          simp [tcpCall, tcpSend, open']
        have sent := congrArg Net.sent result
        rw [setConn_sent] at sent
        refine .quiet index ?_ ?_ ?_ ?_
        · rw [synsSent_packet r.net index sent rfl]
          exact if_neg (by decide)
        · intro other apart
          simp [tcpCall, tcpSend, open', setConn_other, apart]
        · simp [tcpCall, tcpSend, open']
        · simp [open', Opening]
      · exact idle (by simp [tcpCall, tcpSend, open'])

theorem recv_step (conn : Option Nat) (buffer maxLen : Nat) :
    ConnStep r (.recv conn buffer maxLen) i := by
  have idle (same : tcpCall r.net (.recv conn buffer maxLen) = r.net) :
      ConnStep r (.recv conn buffer maxLen) i :=
    .unchanged (by rw [same]) (lastSyn_quiet (synsSent_none _ (by rw [same])) _)
  cases conn with
  | none => exact idle rfl
  | some index =>
      by_cases empty : (r.net.connections index).recvBuf = 0 ∨
          (r.net.connections index).recvLen = 0
      · exact idle (by simp [tcpCall, tcpRecv, empty])
      · refine .quiet index (synsSent_none _ ?_) ?_ ?_ ?_
        · simp [tcpCall, tcpRecv, empty, Net.write]
        · intro other apart
          simp [tcpCall, tcpRecv, empty, setConn_other, apart, Net.write]
        · simp [tcpCall, tcpRecv, empty]
        · simp [tcpCall, tcpRecv, empty]

theorem close_step (conn : Option Nat) : ConnStep r (.close conn) i := by
  cases conn with
  | none => exact .unchanged rfl (lastSyn_quiet (synsSent_none _ rfl) _)
  | some index =>
      by_cases open' : (r.net.connections index).state = .established
      · by_cases same : i = index
        · subst same
          refine .left ?_ ?_ <;> simp [tcpStep, tcpCall, tcpClose, open', Opening]
        · have result : (tcpCall r.net (.close (some index))).sent =
              (tcpSendPacket r.net index (tcpFin ||| tcpAck) 0 0).sent := by
            simp [tcpCall, tcpClose, open']
          refine .unchanged ?_ (lastSyn_quiet ?_ _)
          · simp [tcpCall, tcpClose, open', setConn_other, same]
          · rw [synsSent_packet r.net index result rfl]
            exact if_neg (by decide)
      · refine .quiet index (synsSent_none _ ?_) ?_ ?_ ?_
        · simp [tcpCall, tcpClose, open']
        · intro other apart
          simp [tcpCall, tcpClose, open', setConn_other, apart]
        · simp [tcpCall, tcpClose, open']
        · simp [tcpCall, tcpClose, open']

end Calls

section Segments

variable {s : Net} {index : Nat} (srcIp : Nat) (packet : Bytes) (len : Nat)

theorem tcpDispatch_established (srcIp : Nat)
    (state : (s.connections index).state = .established) :
    tcpDispatch s srcIp packet len index =
      (tcpReceiveEstablished s index (segmentSeq packet) (segmentFlags packet) len).value
        packet := by
  simp only [tcpDispatch, state]

theorem tcpReceiveEstablished_fin {seq flags : Nat} (fin : hasFlag flags tcpFin) :
    (tcpReceiveEstablished s index seq flags len).value packet =
      (tcpSendPacket (s.setConn index { s.connections index with ack := u32 (seq + 1) })
        index tcpAck 0 0).setConn index
          { s.connections index with ack := u32 (seq + 1), state := .closeWait } := by
  unfold tcpReceiveEstablished
  rw [if_pos fin, value_pure, tcpSendPacket_connections, setConn_same]

theorem tcpReceiveEstablished_data {seq flags : Nat} (noFin : ¬ hasFlag flags tcpFin) :
    let dataLen := sub16 len ((packet 12).toNat / 16 * 4)
    (tcpReceiveEstablished s index seq flags len).value packet =
      if hasFlag flags tcpAck ∧ 0 < dataLen then
        tcpSendPacket (s.setConn index { s.connections index with ack := u32 (seq + dataLen) })
          index tcpAck 0 0
      else s := by
  intro dataLen
  unfold tcpReceiveEstablished
  rw [if_neg noFin]
  by_cases ack : hasFlag flags tcpAck
  · rw [if_pos ack, value_bind_of packet (byte 12) _ (show _ = if 0 < dataLen then
      pure (tcpSendPacket (s.setConn index { s.connections index with
        ack := u32 (seq + dataLen) }) index tcpAck 0 0) else pure s from rfl)]
    by_cases data : 0 < dataLen
    · rw [if_pos data, if_pos ⟨ack, data⟩, value_pure]
    · rw [if_neg data, if_neg fun both => data both.2, value_pure]
  · rw [if_neg ack, if_neg fun both => ack both.1, value_pure]

/-- What a segment does on an established connection: it is closed by the peer, it brings
data, or nothing changes. -/
theorem tcpReceiveEstablished_cases (seq flags : Nat) :
    (tcpReceiveEstablished s index seq flags len).value packet =
        (tcpSendPacket (s.setConn index { s.connections index with ack := u32 (seq + 1) })
          index tcpAck 0 0).setConn index
            { s.connections index with ack := u32 (seq + 1), state := .closeWait } ∨
      (∃ dataLen, (tcpReceiveEstablished s index seq flags len).value packet =
        tcpSendPacket (s.setConn index
          { s.connections index with ack := u32 (seq + dataLen) }) index tcpAck 0 0) ∨
      (tcpReceiveEstablished s index seq flags len).value packet = s := by
  by_cases fin : hasFlag flags tcpFin
  · exact Or.inl (tcpReceiveEstablished_fin packet len fin)
  · rw [tcpReceiveEstablished_data packet len fin]
    right
    split
    · exact Or.inl ⟨_, rfl⟩
    · exact Or.inr rfl

theorem tcpDispatch_other {i : Nat} (other : i ≠ index) :
    (tcpDispatch s srcIp packet len index).connections i = s.connections i := by
  unfold tcpDispatch
  split
  · unfold tcpReceiveListen
    split
    · simp [setConn_other, other]
    · rfl
  · unfold tcpReceiveSynSent
    split
    · simp [setConn_other, other]
    · rfl
  · unfold tcpReceiveSynReceived
    split
    · simp [setConn_other, other]
    · rfl
  · obtain same | ⟨dataLen, same⟩ | same := tcpReceiveEstablished_cases packet len
      (segmentSeq packet) (segmentFlags packet)
    · rw [same]
      simp [setConn_other, other]
    · rw [same]
      simp [setConn_other, other]
    · rw [same]
  · rfl

theorem tcpCall_segment (target : segmentTarget s srcIp packet len = some index) :
    tcpCall s (.segment srcIp packet len) = tcpDispatch s srcIp packet len index := by
  rw [tcpCall, tcpReceive_value, target]
  rfl

theorem dispatch_establishes
    (establishes : Establishes (s.connections index).state (segmentFlags packet)) :
    ((tcpDispatch s srcIp packet len index).connections index).state = .established := by
  rcases establishes with ⟨state, syn, ack⟩ | ⟨state, ack⟩
  · simp [tcpDispatch, state, tcpReceiveSynSent, syn, ack]
  · simp [tcpDispatch, state, tcpReceiveSynReceived, ack]

end Segments

section SegmentStep

variable {r : TcpRun} {index : Nat} {srcIp : Nat} {packet : Bytes} {len : Nat}

theorem ConnStep.ignored (target : segmentTarget r.net srcIp packet len = some index)
    (same : tcpDispatch r.net srcIp packet len index = r.net) :
    ConnStep r (.segment srcIp packet len) index := by
  have result := (tcpCall_segment srcIp packet len target).trans same
  exact .unchanged (by rw [result]) (lastSyn_quiet (synsSent_none _ (by rw [result])) _)

theorem listen_dispatch (target : segmentTarget r.net srcIp packet len = some index)
    (state : (r.net.connections index).state = .listen) :
    ConnStep r (.segment srcIp packet len) index := by
  by_cases syn : hasFlag (segmentFlags packet) tcpSyn
  · have result := tcpCall_segment srcIp packet len target
    simp only [tcpDispatch, state, tcpReceiveListen, if_pos syn] at result
    have sent := congrArg Net.sent result
    rw [setConn_sent] at sent
    have syns : synsSent r.net (.segment srcIp packet len) = [2000] := by
      rw [synsSent_packet r.net index sent rfl, if_pos (by decide)]
      simp
    have found : (TcpCall.segment srcIp packet len).target r.net = some index := target
    refine .opened 2000 (Or.inr ?_) (lastSyn_sent found syns _) ?_
    · simp [tcpStep, result]
    · simp [tcpStep, result]
  · exact .ignored target (by simp only [tcpDispatch, state, tcpReceiveListen, if_neg syn])

theorem established_dispatch (target : segmentTarget r.net srcIp packet len = some index)
    (state : (r.net.connections index).state = .established) :
    ConnStep r (.segment srcIp packet len) index := by
  have result := tcpCall_segment srcIp packet len target
  rw [tcpDispatch_established packet len srcIp state] at result
  obtain same | ⟨dataLen, same⟩ | same := tcpReceiveEstablished_cases packet len
    (segmentSeq packet) (segmentFlags packet)
  · rw [same] at result
    refine .left ?_ ?_ <;> simp [tcpStep, result, Opening]
  · rw [same] at result
    have sent := congrArg Net.sent result
    refine .kept ?_ ?_ (lastSyn_quiet ?_ _)
    · simp [tcpStep, result, state]
    · simp [state, Opening]
    · rw [synsSent_packet r.net index sent rfl, if_neg (by decide)]
  · rw [same] at result
    exact .unchanged (by rw [result]) (lastSyn_quiet (synsSent_none _ (by rw [result])) _)

theorem dispatch_step (target : segmentTarget r.net srcIp packet len = some index) :
    ConnStep r (.segment srcIp packet len) index := by
  by_cases establishes : Establishes (r.net.connections index).state (segmentFlags packet)
  · exact .established srcIp packet len rfl target establishes
  · cases state : (r.net.connections index).state with
    | listen => exact listen_dispatch target state
    | synSent =>
        have idle : ¬ (hasFlag (segmentFlags packet) tcpSyn ∧ hasFlag (segmentFlags packet) tcpAck) :=
          fun flags => establishes (Or.inl ⟨state, flags⟩)
        exact .ignored target (by simp only [tcpDispatch, state, tcpReceiveSynSent, if_neg idle])
    | synReceived =>
        have idle : ¬ hasFlag (segmentFlags packet) tcpAck :=
          fun ack => establishes (Or.inr ⟨state, ack⟩)
        exact .ignored target
          (by simp only [tcpDispatch, state, tcpReceiveSynReceived, if_neg idle])
    | established => exact established_dispatch target state
    | _ => exact .ignored target (by simp only [tcpDispatch, state])

theorem segment_step (srcIp : Nat) (packet : Bytes) (len i : Nat) :
    ConnStep r (.segment srcIp packet len) i := by
  cases target : segmentTarget r.net srcIp packet len with
  | none =>
      have same : tcpCall r.net (.segment srcIp packet len) = r.net := by
        rw [tcpCall, tcpReceive_value, target]
        rfl
      exact .unchanged (by rw [same]) (lastSyn_quiet (synsSent_none _ (by rw [same])) _)
  | some index =>
      by_cases same : i = index
      · exact same ▸ dispatch_step target
      · have found : (TcpCall.segment srcIp packet len).target r.net = some index := target
        refine .unchanged ?_ (lastSyn_other same _ _ found _)
        rw [tcpCall_segment srcIp packet len target]
        exact tcpDispatch_other srcIp packet len same

end SegmentStep

theorem tcpCall_step (r : TcpRun) (call : TcpCall) (i : Nat) : ConnStep r call i := by
  cases call with
  | connect destIp destPort => exact connect_step destIp destPort
  | listen port => exact listen_step port
  | accept listener => exact .unchanged rfl rfl
  | send conn data len => exact send_step conn data len
  | recv conn buffer maxLen => exact recv_step conn buffer maxLen
  | close conn => exact close_step conn
  | segment srcIp packet len => exact segment_step srcIp packet len i

/-- The sequence number of a connection being opened follows its SYN's. -/
def SynTracked (r : TcpRun) : Prop :=
  ∀ i, Opening (r.net.connections i).state →
    ∃ first, lastSyn i r.history = some first ∧
      (r.net.connections i).seq = u32 (first + 1)

theorem start_tracked (netifIp : Nat) (memory : Nat → Nat) :
    SynTracked (TcpRun.start netifIp memory) := by
  intro i opening
  rcases opening with state | state <;> cases state

theorem tcpStep_tracked {r : TcpRun} (tracked : SynTracked r) (call : TcpCall) :
    SynTracked (tcpStep r call) := by
  intro i opening
  cases tcpCall_step r call i with
  | kept state seq syn =>
      rw [state] at opening
      rw [seq opening, syn]
      exact tracked i opening
  | left notOpening _ => exact absurd opening notOpening
  | opened first _ syn seq => exact ⟨first, syn, seq⟩
  | established srcIp packet len isSegment target establishes =>
      subst isSegment
      have state := dispatch_establishes srcIp packet len establishes
      rw [← tcpCall_segment srcIp packet len target] at state
      rw [tcpStep, state] at opening
      rcases opening with other | other <;> cases other

theorem synAcked_segment {r : TcpRun} (tracked : SynTracked r) {index : Nat} {srcIp : Nat}
    {packet : Bytes} {len : Nat} (target : segmentTarget r.net srcIp packet len = some index)
    (establishes : Establishes (r.net.connections index).state (segmentFlags packet)) :
    synAcked index (tcpStep r (.segment srcIp packet len)).history = true ↔
      segmentAck packet = (r.net.connections index).seq ∨ synAcked index r.history = true := by
  have opening : Opening (r.net.connections index).state := establishes.imp And.left And.left
  obtain ⟨first, syn, seq⟩ := tracked index opening
  have quiet : synsSent r.net (.segment srcIp packet len) = [] := by
    have result := tcpCall_segment srcIp packet len target
    rcases establishes with ⟨state, flags⟩ | ⟨state, ack⟩
    · simp only [tcpDispatch, state, tcpReceiveSynSent, if_pos flags] at result
      rw [synsSent_packet r.net index (congrArg Net.sent result) rfl, if_neg (by decide)]
    · simp only [tcpDispatch, state, tcpReceiveSynReceived, if_pos ack] at result
      exact synsSent_none _ (by rw [result, setConn_sent])
  have events : tcpEvents r.net (.segment srcIp packet len) =
      [.segment index (segmentAck packet)] := by
    simp only [tcpEvents, TcpCall.target, target, quiet]
    rfl
  simp [tcpStep, events, synAcked, syn, seq]

theorem handshake_iff {r : TcpRun} (tracked : SynTracked r) (call : TcpCall) :
    HandshakeSafe r call ↔ HandshakeCareful r call := by
  constructor
  · rintro safe srcIp packet len i rfl target establishes
    have state := dispatch_establishes srcIp packet len establishes
    rw [← tcpCall_segment srcIp packet len target] at state
    have before : (r.net.connections i).state ≠ .established := by
      rcases establishes with ⟨same, _⟩ | ⟨same, _⟩ <;> rw [same] <;> decide
    obtain ⟨acked, noRst⟩ := safe i before state
    exact ⟨noRst, (synAcked_segment tracked target establishes).mp acked⟩
  · intro careful i before after
    cases tcpCall_step r call i with
    | kept state _ _ => exact absurd (state.symm.trans after) before
    | left _ notEstablished => exact absurd after notEstablished
    | opened _ opening _ _ =>
        rw [after] at opening
        rcases opening with other | other <;> cases other
    | established srcIp packet len isSegment target establishes =>
        subst isSegment
        obtain ⟨noRst, acked⟩ := careful srcIp packet len i rfl target establishes
        exact ⟨(synAcked_segment tracked target establishes).mpr acked, noRst⟩

/-- In a run from the empty connection table, every connection is established safely exactly
if every segment that establishes one is careful. -/
theorem handshake_run_iff (netifIp : Nat) (memory : Nat → Nat) (calls : List TcpCall) :
    Along tcpStep HandshakeSafe (.start netifIp memory) calls ↔
      Along tcpStep HandshakeCareful (.start netifIp memory) calls :=
  along_congr SynTracked (fun _ call tracked _ => tcpStep_tracked tracked call)
    (fun _ call tracked => handshake_iff tracked call) (start_tracked netifIp memory) calls

/-- A SYN and ACK from port 80 to port 49232, with sequence and acknowledgement numbers 0. -/
def forgedSynAck : Bytes := fun position =>
  if position = 1 then 80 else if position = 2 then 0xC0 else if position = 3 then 80
  else if position = 12 then 0x50 else if position = 13 then 0x12 else 0

/-- A forged answer establishes the connection, though it acknowledges 0 and not 1001. -/
theorem forged_answer_establishes :
    ¬ ∀ netifIp memory calls, Along tcpStep HandshakeSafe (.start netifIp memory) calls := by
  intro all
  have safe := (all 1 (fun _ => 0) [.connect 2 80, .segment 2 forgedSynAck 20]).2.1
  have acked := (safe 0 (by decide) (by decide)).1
  exact absurd acked (by decide)

end ZurichOS
