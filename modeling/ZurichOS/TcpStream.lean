import ZurichOS.TcpHandshake

set_option linter.all false

/-!
Receiving a peer's byte stream.  Segments carry pieces of the stream, in any order and any
number of times, between any other calls.  A run is sound if a count of acknowledged bytes
that never decreases explains the acknowledgement number after every step.  As no call
ever gives a connection a receive buffer, that count has to stay zero.
-/

namespace ZurichOS

open Words ByteReader Transitions

/-! The peer's stream. -/

def pieceOffset (packet : Bytes) : Nat := (packet 12).toNat / 16 * 4

def pieceCount (packet : Bytes) (len : Nat) : Nat := len - pieceOffset packet

def TcpConn.Addresses (conn : TcpConn) (srcIp : Nat) (packet : Bytes) : Prop :=
  conn.remoteIp = srcIp ∧ conn.remotePort = segmentSrcPort packet ∧
    conn.localPort = segmentDestPort packet

/-- A segment from the peer with the bytes of the stream from `first` on, the first byte of
the stream having the number `base`; FIN comes with or after the last byte. -/
structure CarriesPiece (stream : List UInt8) (base first : Nat) (packet : Bytes) (len : Nat) :
    Prop where
  header : 20 ≤ len ∧ pieceOffset packet ≤ len ∧ len < 65536
  seq : segmentSeq packet = u32 (base + first)
  inside : first + pieceCount packet len ≤ stream.length
  bytes : ∀ j < pieceCount packet len, stream[first + j]? = some (packet (pieceOffset packet + j))
  fin : hasFlag (segmentFlags packet) tcpFin → first + pieceCount packet len = stream.length

inductive StreamEvent where
  | piece (first srcIp : Nat) (packet : Bytes) (len : Nat)
  | call (call : TcpCall)

/-- The peer's segments carry pieces of its stream, and the connection is not closed. -/
def StreamEvent.Valid (stream : List UInt8) (conn : TcpConn) (index : Nat) : StreamEvent → Prop
  | .piece first srcIp packet len =>
      conn.Addresses srcIp packet ∧ CarriesPiece stream conn.ack first packet len
  | .call (.segment srcIp packet _) => ¬ conn.Addresses srcIp packet
  | .call (.close closed) => closed ≠ some index
  | .call _ => True

/-! Runs, with the positions received and the bytes `tcp_recv` has returned. -/

structure StreamRun where
  net : Net
  received : List Nat
  finished : Bool
  returned : List Nat

def bytesReturned (s : Net) (index : Nat) : TcpCall → List Nat
  | .recv conn buffer maxLen =>
      if conn = some index then
        (List.range (tcpRecv s conn buffer maxLen).1.toNat).map fun j =>
          (tcpRecv s conn buffer maxLen).2.user.memory (u32 (buffer + j))
      else []
  | _ => []

def streamStep (index : Nat) (r : StreamRun) : StreamEvent → StreamRun
  | .piece first srcIp packet len =>
      { net := tcpCall r.net (.segment srcIp packet len)
        received := (List.range (pieceCount packet len)).map (first + ·) ++ r.received
        finished := r.finished || decide (hasFlag (segmentFlags packet) tcpFin)
        returned := r.returned }
  | .call call =>
      { r with
        net := tcpCall r.net call
        returned := r.returned ++ bytesReturned r.net index call }

def netAfter (netifIp : Nat) (memory : Nat → Nat) (calls : List TcpCall) : Net :=
  calls.foldl tcpCall (Net.start netifIp memory)

def StreamRun.start (s : Net) : StreamRun := ⟨s, [], false, []⟩

def recvCalls (index : Nat) (calls : List (Nat × Nat)) : List StreamEvent :=
  calls.map fun call => .call (.recv (some index) call.1 call.2)

/-- The acknowledgement number covers the first `count` bytes, and the FIN if it covers one
more: all of them have been received, what `tcp_recv` has returned is the beginning of
them, and further calls return the rest. -/
structure Covers (stream : List UInt8) (base index : Nat) (r : StreamRun) (count : Nat) :
    Prop where
  inside : count ≤ stream.length
  ack : (r.net.connections index).ack = u32 (base + count) ∨
    (count = stream.length ∧ r.finished = true ∧
      (r.net.connections index).ack = u32 (base + count + 1))
  received : ∀ position < count, position ∈ r.received
  inOrder : r.returned <+: (stream.take count).map UInt8.toNat
  returned : ∃ calls, ((recvCalls index calls).foldl (streamStep index) r).returned =
    (stream.take count).map UInt8.toNat

/-- After every step the acknowledgement number covers some count of bytes, and no fewer
than before. -/
def StreamSound (stream : List UInt8) (base index : Nat) :
    StreamRun → Nat → List StreamEvent → Prop
  | _, _, [] => True
  | r, count, event :: rest => ∃ after, count ≤ after ∧
      Covers stream base index (streamStep index r event) after ∧
      StreamSound stream base index (streamStep index r event) after rest

/-- A segment that the established connection acknowledges carries none of the stream:
data ends, and a FIN stands, where the acknowledgement number already is. -/
def StreamCareful (stream : List UInt8) (index : Nat) (r : StreamRun) : StreamEvent → Prop
  | .piece first srcIp packet len =>
      segmentTarget r.net srcIp packet len = some index →
      (r.net.connections index).state = .established →
        if hasFlag (segmentFlags packet) tcpFin then stream = [] ∨ (first + 1) % 4294967296 = 0
        else hasFlag (segmentFlags packet) tcpAck → pieceCount packet len = 0 ∨
          (first + pieceCount packet len) % 4294967296 = 0
  | .call _ => True

/-! No connection has a receive buffer. -/

structure LiveConn (conn : TcpConn) : Prop where
  noBuffer : conn.recvBuf = 0
  word : conn.ack < 4294967296
  inUse : conn.state = .established → conn.inUse = true

def LiveNet (s : Net) : Prop := ∀ i, LiveConn (s.connections i)

section LiveNet

variable {s : Net}

theorem fresh_live (conn : TcpConn) (noBuffer : conn.recvBuf = 0) (ack : conn.ack = 0)
    (inUse : conn.inUse = true) : LiveConn conn :=
  ⟨noBuffer, by omega, fun _ => inUse⟩

theorem live_congr {after : Net} (live : LiveNet s) (same : after.connections = s.connections) :
    LiveNet after := by
  intro i
  rw [same]
  exact live i

theorem LiveNet.setConn (live : LiveNet s) (index : Nat) {conn : TcpConn} (liveConn : LiveConn conn) :
    LiveNet (s.setConn index conn) := by
  intro i
  by_cases same : i = index
  · rw [same, setConn_same]
    exact liveConn
  · rw [setConn_other _ _ _ same]
    exact live i

theorem LiveNet.sendPacket (live : LiveNet s) (index flags data len : Nat) :
    LiveNet (tcpSendPacket s index flags data len) :=
  live_congr live (tcpSendPacket_connections s index flags data len)

theorem tcpDispatch_live (live : LiveNet s) (srcIp : Nat) (packet : Bytes) (len : Nat) {index : Nat}
    (inUse : (s.connections index).inUse = true) :
    LiveNet (tcpDispatch s srcIp packet len index) := by
  obtain ⟨noBuffer, word, _⟩ := live index
  unfold tcpDispatch
  split
  · unfold tcpReceiveListen
    split
    · refine LiveNet.setConn (LiveNet.sendPacket (LiveNet.setConn live index ?_) _ _ _ _) index ?_
      · exact ⟨noBuffer, u32_lt _, fun _ => inUse⟩
      · exact ⟨noBuffer, u32_lt _, fun _ => inUse⟩
    · exact live
  · unfold tcpReceiveSynSent
    split
    · refine LiveNet.sendPacket (LiveNet.setConn live index ?_) _ _ _ _
      exact ⟨noBuffer, u32_lt _, fun _ => inUse⟩
    · exact live
  · unfold tcpReceiveSynReceived
    split
    · exact LiveNet.setConn live index ⟨noBuffer, word, fun _ => inUse⟩
    · exact live
  · obtain same | ⟨dataLen, same⟩ | same := tcpReceiveEstablished_cases packet len
      (segmentSeq packet) (segmentFlags packet)
    · rw [same]
      refine LiveNet.setConn (LiveNet.sendPacket (LiveNet.setConn live index ?_) _ _ _ _) index ?_
      · exact ⟨noBuffer, u32_lt _, fun _ => inUse⟩
      · exact ⟨noBuffer, u32_lt _, fun state => by cases state⟩
    · rw [same]
      refine LiveNet.sendPacket (LiveNet.setConn live index ?_) _ _ _ _
      exact ⟨noBuffer, u32_lt _, fun _ => inUse⟩
    · rw [same]
      exact live
  · exact live

theorem tcpCall_live (live : LiveNet s) (call : TcpCall) : LiveNet (tcpCall s call) := by
  cases call with
  | connect destIp destPort =>
      cases found : tcpAllocConn s with
      | none => simpa [tcpCall, tcpConnect, found] using live
      | some allocated =>
          obtain ⟨index, after⟩ := allocated
          rw [tcpCall_connect destIp destPort found]
          obtain rfl := tcpAllocConn_some found
          have fresh := live.setConn index
            (fresh_live { TcpConn.zero with inUse := true } rfl rfl rfl)
          refine LiveNet.setConn (LiveNet.sendPacket (LiveNet.setConn fresh index ?_) _ _ _ _) index ?_
          · exact fresh_live _ rfl rfl rfl
          · exact fresh_live _ rfl rfl rfl
  | listen port =>
      cases found : tcpAllocConn s with
      | none => simpa [tcpCall, tcpListen, found] using live
      | some allocated =>
          obtain ⟨index, after⟩ := allocated
          obtain rfl := tcpAllocConn_some found
          simp only [tcpCall, tcpListen, found, Option.bind_eq_bind, Option.bind_some,
            Option.pure_def, Option.map_some, Option.getD_some, setConn_same]
          refine LiveNet.setConn (LiveNet.setConn live index ?_) index ?_
          · exact fresh_live _ rfl rfl rfl
          · exact fresh_live _ rfl rfl rfl
  | accept listener => exact live
  | send conn data len =>
      cases conn with
      | none => exact live
      | some index =>
          simp only [tcpCall, tcpSend]
          split
          · exact live
          · refine LiveNet.setConn (live.sendPacket _ _ _ _) index ?_
            rw [tcpSendPacket_connections]
            exact ⟨(live index).noBuffer, (live index).word, (live index).inUse⟩
  | recv conn buffer maxLen =>
      cases conn with
      | none => exact live
      | some index =>
          simp only [tcpCall, tcpRecv, (live index).noBuffer, true_or, if_true]
          exact live
  | close conn =>
      cases conn with
      | none => exact live
      | some index =>
          obtain ⟨noBuffer, word, _⟩ := live index
          simp only [tcpCall, tcpClose]
          split
          · refine LiveNet.setConn (LiveNet.setConn (live.sendPacket _ _ _ _) index ?_) index ?_
            · rw [tcpSendPacket_connections]
              exact ⟨noBuffer, word, fun state => by cases state⟩
            · rw [setConn_same, tcpSendPacket_connections]
              exact ⟨noBuffer, word, fun state => by cases state⟩
          · rename_i notOpen
            exact LiveNet.setConn live index ⟨noBuffer, word, fun open' => absurd open' notOpen⟩
  | segment srcIp packet len =>
      rw [tcpCall, tcpReceive_value]
      cases target : segmentTarget s srcIp packet len with
      | none => exact live
      | some index =>
          exact tcpDispatch_live live srcIp packet len (segmentTarget_cases target).2.1

theorem start_live (netifIp : Nat) (memory : Nat → Nat) : LiveNet (Net.start netifIp memory) :=
  fun _ => ⟨rfl, Nat.zero_lt_succ _, fun state => by cases state⟩

theorem netAfter_live (netifIp : Nat) (memory : Nat → Nat) (calls : List TcpCall) :
    LiveNet (netAfter netifIp memory calls) :=
  calls.foldlRecOn tcpCall (start_live netifIp memory) fun _ live call _ => tcpCall_live live call

end LiveNet

/-! The connection under the calls around it and under its own segments. -/

/-- The connection stays what it is for the peer. -/
structure Follows (before after : TcpConn) : Prop where
  remoteIp : after.remoteIp = before.remoteIp
  remotePort : after.remotePort = before.remotePort
  localPort : after.localPort = before.localPort
  ack : after.ack = before.ack
  state : after.state = before.state
  inUse : after.inUse = before.inUse

def Open (conn : TcpConn) : Prop := conn.state = .established ∨ conn.state = .closeWait

section Conn

variable {s : Net} {index : Nat}

theorem Follows.of_eq {before after : TcpConn} (same : after = before) : Follows before after := by
  subst same
  exact ⟨rfl, rfl, rfl, rfl, rfl, rfl⟩

theorem alloc_follows {slot : Nat} {after : Net} (used : (s.connections index).inUse = true)
    (found : tcpAllocConn s = some (slot, after)) : index ≠ slot := by
  rintro rfl
  have isFree := (tcpAllocConn_free found).2
  rw [used] at isFree
  cases isFree

theorem segment_other {srcIp : Nat} {packet : Bytes} {len : Nat}
    (other : segmentTarget s srcIp packet len ≠ some index) :
    (tcpCall s (.segment srcIp packet len)).connections index = s.connections index := by
  rw [tcpCall, tcpReceive_value]
  cases target : segmentTarget s srcIp packet len with
  | none => rfl
  | some slot =>
      apply tcpDispatch_other
      rintro rfl
      exact other target

theorem segmentTarget_addresses {srcIp : Nat} {packet : Bytes} {len : Nat}
    (isOpen : Open (s.connections index))
    (target : segmentTarget s srcIp packet len = some index) :
    (s.connections index).Addresses srcIp packet := by
  rcases (segmentTarget_cases target).2.2 with addressed | ⟨listening, _⟩
  · exact addressed
  · rcases isOpen with state | state <;> rw [state] at listening <;> cases listening

theorem call_follows (live : LiveNet s) (used : (s.connections index).inUse = true)
    (isOpen : Open (s.connections index)) {stream : List UInt8} {conn : TcpConn}
    (same : conn.remoteIp = (s.connections index).remoteIp ∧
      conn.remotePort = (s.connections index).remotePort ∧
      conn.localPort = (s.connections index).localPort)
    {call : TcpCall} (valid : (StreamEvent.call call).Valid stream conn index) :
    Follows (s.connections index) ((tcpCall s call).connections index) := by
  cases call with
  | connect destIp destPort =>
      refine .of_eq ?_
      cases found : tcpAllocConn s with
      | none => simp [tcpCall, tcpConnect, found]
      | some allocated =>
          have apart := alloc_follows used found
          rw [tcpCall_connect destIp destPort found, tcpAllocConn_some found]
          simp [setConn_other, apart]
  | listen port =>
      refine .of_eq ?_
      cases found : tcpAllocConn s with
      | none => simp [tcpCall, tcpListen, found]
      | some allocated =>
          have apart := alloc_follows used found
          simp [tcpCall, tcpListen, found, tcpAllocConn_some found, setConn_other, apart]
  | accept listener => exact .of_eq rfl
  | send conn data len =>
      cases conn with
      | none => exact .of_eq rfl
      | some slot =>
          simp only [tcpCall, tcpSend]
          split
          · exact .of_eq rfl
          · by_cases same : index = slot
            · subst same
              rw [setConn_same, tcpSendPacket_connections]
              exact ⟨rfl, rfl, rfl, rfl, rfl, rfl⟩
            · exact .of_eq (by rw [setConn_other _ _ _ same, tcpSendPacket_connections])
  | recv conn buffer maxLen =>
      cases conn with
      | none => exact .of_eq rfl
      | some slot => exact .of_eq (by simp [tcpCall, tcpRecv, (live slot).noBuffer])
  | close conn =>
      cases conn with
      | none => exact .of_eq rfl
      | some slot =>
          have apart : index ≠ slot := fun same => valid (by rw [same])
          refine .of_eq ?_
          simp only [tcpCall, tcpClose]
          split <;> simp [setConn_other, apart]
  | segment srcIp packet len =>
      refine .of_eq (segment_other fun target => valid ?_)
      obtain ⟨ip, port, localPort⟩ := segmentTarget_addresses isOpen target
      exact ⟨same.1.trans ip, same.2.1.trans port, same.2.2.trans localPort⟩

theorem piece_fin {srcIp : Nat} {packet : Bytes} {len : Nat}
    (target : segmentTarget s srcIp packet len = some index)
    (state : (s.connections index).state = .established)
    (fin : hasFlag (segmentFlags packet) tcpFin) :
    (tcpCall s (.segment srcIp packet len)).connections index =
      { s.connections index with ack := u32 (segmentSeq packet + 1), state := .closeWait } := by
  rw [tcpCall_segment srcIp packet len target, tcpDispatch_established packet len srcIp state,
    tcpReceiveEstablished_fin packet len fin, setConn_same]

theorem piece_data {stream : List UInt8} {base first srcIp : Nat} {packet : Bytes} {len : Nat}
    (carries : CarriesPiece stream base first packet len)
    (target : segmentTarget s srcIp packet len = some index)
    (state : (s.connections index).state = .established)
    (noFin : ¬ hasFlag (segmentFlags packet) tcpFin) :
    (tcpCall s (.segment srcIp packet len)).connections index =
      if hasFlag (segmentFlags packet) tcpAck ∧ 0 < pieceCount packet len then
        { s.connections index with ack := u32 (segmentSeq packet + pieceCount packet len) }
      else s.connections index := by
  have count : sub16 len ((packet 12).toNat / 16 * 4) = pieceCount packet len := by
    obtain ⟨_, fits, word⟩ := carries.header
    rw [pieceCount, sub16]
    unfold pieceOffset at fits ⊢
    omega
  rw [tcpCall_segment srcIp packet len target, tcpDispatch_established packet len srcIp state,
    tcpReceiveEstablished_data packet len noFin, count]
  split
  · rw [tcpSendPacket_connections, setConn_same]
  · rfl

theorem piece_closeWait {srcIp : Nat} {packet : Bytes} {len : Nat}
    (state : (s.connections index).state = .closeWait) :
    (tcpCall s (.segment srcIp packet len)).connections index = s.connections index := by
  by_cases target : segmentTarget s srcIp packet len = some index
  · rw [tcpCall_segment srcIp packet len target]
    simp only [tcpDispatch, state]
  · exact segment_other target

end Conn

section Returned

variable {index : Nat} {r : StreamRun}

theorem bytesReturned_nil {s : Net} (live : LiveNet s) (call : TcpCall) :
    bytesReturned s index call = [] := by
  cases call with
  | recv conn buffer maxLen =>
      rw [bytesReturned]
      split
      · rename_i same
        subst same
        simp [tcpRecv, (live index).noBuffer]
      · rfl
  | _ => rfl

theorem recvCalls_returned (live : LiveNet r.net) (calls : List (Nat × Nat)) :
    ((recvCalls index calls).foldl (streamStep index) r).returned = r.returned := by
  induction calls generalizing r with
  | nil => rfl
  | cons call rest ih =>
      refine (ih (tcpCall_live live _)).trans ?_
      simp only [streamStep, bytesReturned_nil live, List.append_nil]

theorem covers_nothing {stream : List UInt8} {base count : Nat} (live : LiveNet r.net)
    (covers : Covers stream base index r count) (none : r.returned = []) : count = 0 := by
  obtain ⟨calls, all⟩ := covers.returned
  have length := congrArg List.length all
  rw [recvCalls_returned live, none, List.length_nil, List.length_map, List.length_take] at length
  have inside := covers.inside
  omega

end Returned

/-- So far nothing is acknowledged, but for the end of an empty stream. -/
structure StreamKept (stream : List UInt8) (conn : TcpConn) (index : Nat) (r : StreamRun) :
    Prop where
  live : LiveNet r.net
  used : (r.net.connections index).inUse = true
  isOpen : Open (r.net.connections index)
  addresses : conn.remoteIp = (r.net.connections index).remoteIp ∧
    conn.remotePort = (r.net.connections index).remotePort ∧
    conn.localPort = (r.net.connections index).localPort
  returned : r.returned = []
  ack : (r.net.connections index).ack = u32 conn.ack ∨
    (stream = [] ∧ r.finished = true ∧ (r.net.connections index).ack = u32 (conn.ack + 1))

section Stream

variable {stream : List UInt8} {conn : TcpConn} {index : Nat} {r : StreamRun}

theorem StreamKept.covers (kept : StreamKept stream conn index r) :
    Covers stream conn.ack index r 0 := by
  refine ⟨Nat.zero_le _, ?_, fun position below => absurd below (Nat.not_lt_zero position), ?_,
    [], kept.returned⟩
  · refine kept.ack.imp id fun ⟨empty, finished, ack⟩ => ⟨?_, finished, ack⟩
    rw [empty, List.length_nil]
  · rw [kept.returned]
    exact List.nil_prefix

theorem StreamKept.follow (kept : StreamKept stream conn index r) {event : StreamEvent}
    (live : LiveNet (streamStep index r event).net)
    (follows : Follows (r.net.connections index)
      ((streamStep index r event).net.connections index))
    (returned : (streamStep index r event).returned = r.returned)
    (finished : r.finished = true → (streamStep index r event).finished = true) :
    StreamKept stream conn index (streamStep index r event) := by
  obtain ⟨ip, port, localPort⟩ := kept.addresses
  refine ⟨live, follows.inUse.trans kept.used, ?_, ⟨?_, ?_, ?_⟩, returned.trans kept.returned, ?_⟩
  · rw [Open, follows.state]
    exact kept.isOpen
  · rw [follows.remoteIp, ip]
  · rw [follows.remotePort, port]
  · rw [follows.localPort, localPort]
  · rw [follows.ack]
    exact kept.ack.imp id fun ⟨empty, ended, ack⟩ => ⟨empty, finished ended, ack⟩

theorem streamStep_live (live : LiveNet r.net) (event : StreamEvent) :
    LiveNet (streamStep index r event).net := by
  cases event <;> exact tcpCall_live live _

theorem call_kept (kept : StreamKept stream conn index r) {call : TcpCall}
    (valid : (StreamEvent.call call).Valid stream conn index) :
    StreamKept stream conn index (streamStep index r (.call call)) := by
  refine kept.follow (streamStep_live kept.live _)
    (call_follows kept.live kept.used kept.isOpen kept.addresses valid) ?_ id
  rw [streamStep, bytesReturned_nil kept.live, List.append_nil]

section Piece

variable {first srcIp : Nat} {packet : Bytes} {len : Nat}

theorem piece_unchanged (kept : StreamKept stream conn index r)
    (same : (tcpCall r.net (.segment srcIp packet len)).connections index =
      r.net.connections index) :
    StreamKept stream conn index (streamStep index r (.piece first srcIp packet len)) :=
  kept.follow (streamStep_live kept.live _) (.of_eq same) rfl
    (fun finished => by simp [streamStep, finished])

theorem piece_kept (kept : StreamKept stream conn index r)
    (carries : CarriesPiece stream conn.ack first packet len)
    (careful : StreamCareful stream index r (.piece first srcIp packet len)) :
    StreamKept stream conn index (streamStep index r (.piece first srcIp packet len)) := by
  by_cases target : segmentTarget r.net srcIp packet len = some index
  · rcases kept.isOpen with state | state
    · have allowed := careful target state
      by_cases fin : hasFlag (segmentFlags packet) tcpFin
      · rw [if_pos fin] at allowed
        have result := piece_fin target state fin
        refine ⟨streamStep_live kept.live _, ?_, ?_, ?_, kept.returned, ?_⟩
        all_goals simp only [streamStep, result]
        · exact kept.used
        · exact Or.inr rfl
        · exact kept.addresses
        · have ack : u32 (segmentSeq packet + 1) = u32 (conn.ack + (first + 1)) := by
            rw [carries.seq]
            unfold u32
            omega
          rw [ack]
          rcases allowed with empty | wraps
          · have inside := carries.inside
            rw [empty, List.length_nil] at inside
            exact Or.inr ⟨empty, by simp [fin], by rw [show first = 0 by omega]⟩
          · refine Or.inl ?_
            unfold u32
            omega
      · rw [if_neg fin] at allowed
        have result := piece_data carries target state fin
        by_cases acked : hasFlag (segmentFlags packet) tcpAck ∧ 0 < pieceCount packet len
        · rw [if_pos acked] at result
          have wraps := (allowed acked.1).resolve_left (by omega)
          refine ⟨streamStep_live kept.live _, ?_, ?_, ?_, kept.returned, Or.inl ?_⟩
          all_goals simp only [streamStep, result]
          · exact kept.used
          · exact kept.isOpen
          · exact kept.addresses
          · rw [carries.seq]
            unfold u32
            omega
        · rw [if_neg acked] at result
          exact piece_unchanged kept result
    · exact piece_unchanged kept (piece_closeWait state)
  · exact piece_unchanged kept (segment_other target)

theorem piece_careful (carries : CarriesPiece stream conn.ack first packet len)
    (covers : Covers stream conn.ack index (streamStep index r (.piece first srcIp packet len)) 0) :
    StreamCareful stream index r (.piece first srcIp packet len) := by
  intro target state
  have acknowledged := covers.ack
  split
  · rename_i fin
    simp only [streamStep, piece_fin target state fin, carries.seq, Nat.add_zero] at acknowledged
    rcases acknowledged with same | ⟨empty, _⟩
    · refine Or.inr ?_
      unfold u32 at same
      omega
    · exact Or.inl (List.length_eq_zero_iff.mp empty.symm)
  · rename_i noFin
    intro ack
    by_cases none : pieceCount packet len = 0
    · exact Or.inl none
    · refine Or.inr ?_
      have acked : hasFlag (segmentFlags packet) tcpAck ∧ 0 < pieceCount packet len :=
        ⟨ack, by omega⟩
      simp only [streamStep, piece_data carries target state noFin, if_pos acked, carries.seq,
        Nat.add_zero] at acknowledged
      rcases acknowledged with same | ⟨empty, _⟩
      · unfold u32 at same
        omega
      · have inside := carries.inside
        omega

end Piece

theorem stream_sound_iff (kept : StreamKept stream conn index r) (events : List StreamEvent)
    (valid : ∀ event ∈ events, event.Valid stream conn index) :
    StreamSound stream conn.ack index r 0 events ↔
      Along (streamStep index) (StreamCareful stream index) r events := by
  induction events generalizing r with
  | nil => exact iff_of_true trivial trivial
  | cons event rest ih =>
      have validEvent := valid event List.mem_cons_self
      have validRest := fun later member => valid later (List.mem_cons_of_mem event member)
      have next (careful : StreamCareful stream index r event) :
          StreamKept stream conn index (streamStep index r event) := by
        cases event with
        | piece first srcIp packet len => exact piece_kept kept validEvent.2 careful
        | call call => exact call_kept kept validEvent
      constructor
      · rintro ⟨count, _, covers, later⟩
        have none : count = 0 := by
          refine covers_nothing (streamStep_live kept.live event) covers ?_
          cases event with
          | piece first srcIp packet len => exact kept.returned
          | call call => exact (call_kept kept validEvent).returned
        subst none
        have careful : StreamCareful stream index r event := by
          cases event with
          | piece first srcIp packet len => exact piece_careful validEvent.2 covers
          | call call => trivial
        exact ⟨careful, (ih (next careful) validRest).mp later⟩
      · rintro ⟨careful, later⟩
        exact ⟨0, Nat.le_refl 0, (next careful).covers,
          (ih (next careful) validRest).mpr later⟩

end Stream

/-- A peer's stream is received soundly by a connection that some calls have established
exactly if none of it is ever acknowledged. -/
theorem tcp_stream_run_iff (netifIp : Nat) (memory : Nat → Nat) (earlier : List TcpCall)
    (index : Nat) (stream : List UInt8) (events : List StreamEvent)
    (established : ((netAfter netifIp memory earlier).connections index).state = .established)
    (valid : ∀ event ∈ events,
      event.Valid stream ((netAfter netifIp memory earlier).connections index) index) :
    StreamSound stream ((netAfter netifIp memory earlier).connections index).ack index
        (.start (netAfter netifIp memory earlier)) 0 events ↔
      Along (streamStep index) (StreamCareful stream index)
        (.start (netAfter netifIp memory earlier)) events := by
  have live := netAfter_live netifIp memory earlier
  have kept : StreamKept stream ((netAfter netifIp memory earlier).connections index) index
      (.start (netAfter netifIp memory earlier)) :=
    ⟨live, (live index).inUse established, Or.inl established, ⟨rfl, rfl, rfl⟩, rfl,
      Or.inl (u32_eq_of_lt (live index).word).symm⟩
  exact stream_sound_iff kept events valid

/-- A segment from port 80 to the port that `tcp_connect` uses for it, acknowledging 1001. -/
def peerSegment (seq flags : UInt8) (payload : List UInt8) : Bytes := fun position =>
  ([0, 80, 0xC0, 80, 0, 0, 0, seq, 0, 0, 3, 0xE9, 0x50, flags, 0x20, 0, 0, 0, 0, 0] ++
    payload).getD position 0

def peerHandshake : List TcpCall := [.connect 2 80, .segment 2 (peerSegment 0 0x12 []) 20]

def peerConnected : Net := netAfter 1 (fun _ => 0) peerHandshake

theorem tcp_stream_run_iff_acks :
    StreamSound [97] (peerConnected.connections 0).ack 0 (.start peerConnected) 0
      [.piece 0 2 (peerSegment 1 0x10 []) 20, .call (.recv (some 0) 100 4)] := by
  refine (tcp_stream_run_iff 1 (fun _ => 0) peerHandshake 0 [97] _ (by decide) ?_).mpr
    ⟨?_, trivial, trivial⟩
  · rintro event member
    rcases List.mem_pair.mp member with rfl | rfl
    · exact ⟨⟨by decide, by decide, by decide⟩, by decide, by decide, by decide, by decide,
        by decide⟩
    · trivial
  · intro _ _
    exact fun _ => Or.inl (by decide)

/-- The second byte of a stream arrives first, and both are acknowledged. -/
theorem lost_byte_acknowledged :
    ¬ ∀ netifIp memory earlier index stream events,
      ((netAfter netifIp memory earlier).connections index).state = .established →
      (∀ event ∈ events,
        event.Valid stream ((netAfter netifIp memory earlier).connections index) index) →
      StreamSound stream ((netAfter netifIp memory earlier).connections index).ack index
        (.start (netAfter netifIp memory earlier)) 0 events := by
  intro all
  obtain ⟨count, _, covers, _⟩ := all 1 (fun _ => 0) peerHandshake 0 [97, 98]
    [.piece 1 2 (peerSegment 2 0x10 [98]) 21] (by decide) (by
      intro event member
      obtain rfl := List.mem_singleton.mp member
      exact ⟨⟨by decide, by decide, by decide⟩, by decide, by decide, by decide, by decide,
        by decide⟩)
  have none : count = 0 := by
    apply Decidable.byContradiction
    intro some
    have lost := covers.received 0 (Nat.pos_of_ne_zero some)
    exact absurd lost (by decide)
  subst none
  rcases covers.ack with same | ⟨empty, _⟩
  · exact absurd same (by decide)
  · exact absurd empty (by decide)

end ZurichOS
