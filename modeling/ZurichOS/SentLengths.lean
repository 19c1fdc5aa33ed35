import ZurichOS.TcpChecksum

/-!
The lengths that the send path writes into its headers, against the bytes that follow them.
-/

namespace ZurichOS

open ByteReader Words

namespace Wire

/-- The bytes behind the Ethernet header. -/
def framePayload (frame : List UInt8) : List UInt8 := frame.drop ethHlen

def ipTotalLength (frame : List UInt8) : Nat := (word16 2).value (ofList (framePayload frame))

def udpLength (frame : List UInt8) : Nat :=
  (word16 4).value (ofList ((framePayload frame).drop ipHeaderLen))

/-- No buffer is filled past its end, the frame fits, and its IP length is that of its bytes. -/
structure Sending.True (sending : Sending) : Prop where
  fills : ∀ fill ∈ sending.fills, fill.stop ≤ fill.size
  fits : ∀ frame ∈ sending.frame, (framePayload frame).length ≤ ethDataLen
  total : ∀ frame ∈ sending.frame, ipTotalLength frame = (framePayload frame).length

/-- The payload bytes on the wire behind headers of this length. -/
def Sending.payload (sending : Sending) (headers : Nat) : Nat :=
  (sending.frame.map fun frame => (framePayload frame).length - headers).getD 0

structure UdpTrue (sent : Int × Sending) : Prop where
  sending : sent.2.True
  length : ∀ frame ∈ sent.2.frame, udpLength frame = (framePayload frame).length - ipHeaderLen
  result : sent.1 = sent.2.payload (ipHeaderLen + udpHeaderLen)

/-- A call that returns an error has sent nothing. -/
structure TcpTrue (conn : TcpConn) (sent : Int × Sending × TcpConn) : Prop where
  sending : sent.2.1.True
  result : sent.1 = -1 ∧ sent.2.1.frame = none ∨ sent.1 = sent.2.1.payload (ipHeaderLen + tcpHeaderLen)
  seq : sent.2.2.seq = u32 (conn.seq + sent.2.1.payload (ipHeaderLen + tcpHeaderLen))

/-- The interface has an address, and the next hop answers. -/
def Link.Reaches (link : Link) (destIp : Nat) : Prop :=
  ∃ netif, link.netif = some netif ∧ netif.ip ≠ 0 ∧
    (arpResolve link.caches (nextHop netif destIp)).isSome

variable {link : Link} {destIp protocol : Nat} {data : List UInt8} {conn : TcpConn}

theorem ipHeader_length (packetId protocol source dest len : Nat) :
    (ipHeader packetId protocol source dest len).length = 20 := by
  rw [ipHeader, (storeWord_differ _ _ _).length]
  rfl

theorem arpResolve_length {caches : Nat → ArpCache} {ip : Nat} {mac : List UInt8}
    (found : arpResolve caches ip = some mac) : mac.length = 6 := by
  obtain ⟨polls, -, looked⟩ := List.exists_of_findSome?_eq_some found
  obtain ⟨i, -, rfl⟩ := Option.map_eq_some_iff.mp looked
  simp [macBytes]

/-- The total length is written in front of the clamp. -/
theorem ipHeader_total (packetId protocol source dest len : Nat) (rest : List UInt8) :
    (word16 2).value (ofList (ipHeader packetId protocol source dest len ++ rest)) =
      (20 + len) % 65536 := by
  have bytes : ∀ value : Nat, 256 * (UInt8.ofNat (value / 256)).toNat + (UInt8.ofNat value).toNat =
      value % 65536 := by
    intro value
    rw [UInt8.toNat_ofNat', UInt8.toNat_ofNat']
    omega
  have byte (p : Nat) (before : p < 10) :
      ofList (ipHeader packetId protocol source dest len ++ rest) p =
        (ipSendHeader packetId protocol source dest len).getD p 0 := by
    rw [ofList, List.getD_append _ _ _ _ (by rw [ipHeader_length]; omega),
      List.getD_eq_getElem?_getD, ipHeader,
      (storeWord_differ _ _ _).elsewhere p (by omega) (by omega), List.getD_eq_getElem?_getD]
  rw [value_word16, byte 2 (by decide), byte 3 (by decide)]
  exact bytes (20 + len)

/-- Without a way to the address there is no frame. -/
theorem ipSend_unreached (unreached : ¬ link.Reaches destIp) :
    (ipSend link destIp protocol data).frame = none ∧
      ∀ fill ∈ (ipSend link destIp protocol data).fills, fill.stop ≤ fill.size := by
  rw [ipSend]
  split
  · exact ⟨rfl, fun fill none => by cases none⟩
  · rename_i netif isNetif
    split
    · exact ⟨rfl, fun fill none => by cases none⟩
    · rename_i address
      split
      · refine ⟨rfl, fun fill member => ?_⟩
        obtain rfl := List.mem_singleton.mp member
        dsimp only
        rw [List.length_take]
        omega
      · rename_i mac resolved
        exact absurd ⟨netif, isNetif, address, by rw [resolved]; rfl⟩ unreached

/-- What a frame is, and that no buffer overruns on the way. -/
theorem ipSend_reached (reached : link.Reaches destIp) :
    ∃ frame header, (ipSend link destIp protocol data).frame = some frame ∧
      framePayload frame = header ++ data.take ipMtu ∧ header.length = 20 ∧
      ipTotalLength frame = (20 + data.length) % 65536 ∧
      ∀ fill ∈ (ipSend link destIp protocol data).fills, fill.stop ≤ fill.size := by
  obtain ⟨netif, isNetif, address, resolves⟩ := reached
  obtain ⟨mac, resolved⟩ := Option.isSome_iff_exists.mp resolves
  have short := arpResolve_length resolved
  have length := ipHeader_length link.ipId protocol netif.ip destIp data.length
  have whole : (ipHeader link.ipId protocol netif.ip destIp data.length ++
      data.take ipMtu).take ethDataLen =
        ipHeader link.ipId protocol netif.ip destIp data.length ++ data.take ipMtu := by
    apply List.take_of_length_le
    rw [List.length_append, length, List.length_take]
    change 20 + min 1480 data.length ≤ 1500
    omega
  have payload : framePayload (mac ++ macBytes netif.mac ++ networkWord ethTypeIp ++
      (ipHeader link.ipId protocol netif.ip destIp data.length ++ data.take ipMtu)) =
        ipHeader link.ipId protocol netif.ip destIp data.length ++ data.take ipMtu := by
    rw [framePayload, List.drop_left']
    simp [short, macBytes, networkWord]
  have sent : ipSend link destIp protocol data =
      ⟨⟨ipHeaderLen + (data.take ipMtu).length, ipMtu + ipHeaderLen⟩ ::
          (ethSend netif mac ethTypeIp (ipHeader link.ipId protocol netif.ip destIp data.length ++
            data.take ipMtu)).fills,
        (ethSend netif mac ethTypeIp (ipHeader link.ipId protocol netif.ip destIp data.length ++
          data.take ipMtu)).frame⟩ := by
    rw [ipSend]
    split
    · rename_i none
      cases none.symm.trans isNetif
    · rename_i other isOther
      obtain rfl := Option.some.inj (isOther.symm.trans isNetif)
      rw [if_neg address]
      split
      · rename_i none
        cases none.symm.trans resolved
      · rename_i found isFound
        obtain rfl := Option.some.inj (isFound.symm.trans resolved)
        rfl
  rw [sent, ethSend, whole]
  refine ⟨_, _, rfl, payload, length, ?_, ?_⟩
  · rw [ipTotalLength, payload, ipHeader_total]
  · intro fill member
    simp only [List.mem_cons, List.not_mem_nil, or_false] at member
    rcases member with rfl | rfl
    · dsimp only
      rw [List.length_take]
      omega
    · dsimp only
      rw [List.length_append, length, List.length_take]
      change 14 + (20 + min 1480 data.length) ≤ 1514
      omega

theorem ip_true_iff (word : data.length < 65536) :
    (ipSend link destIp protocol data).True ↔ link.Reaches destIp → data.length ≤ 1480 := by
  by_cases reached : link.Reaches destIp
  · obtain ⟨frame, header, isFrame, payload, length, total, fills⟩ :=
      @ipSend_reached link destIp protocol data reached
    have present : (framePayload frame).length = 20 + min 1480 data.length := by
      rw [payload, List.length_append, length, List.length_take]
    constructor
    · intro sent _
      have same := sent.total frame isFrame
      rw [total, present] at same
      omega
    · intro fits
      have fits := fits reached
      refine ⟨fills, fun other isOther => ?_, fun other isOther => ?_⟩
      · obtain rfl := Option.some.inj (isFrame.symm.trans isOther)
        rw [present]
        change _ ≤ 1500
        omega
      · obtain rfl := Option.some.inj (isFrame.symm.trans isOther)
        rw [total, present]
        omega
  · obtain ⟨none, fills⟩ := @ipSend_unreached link destIp protocol data reached
    refine iff_of_true ⟨fills, fun frame is => ?_, fun frame is => ?_⟩ fun is => absurd is reached
    · cases none.symm.trans is
    · cases none.symm.trans is

theorem payload_unreached (unreached : ¬ link.Reaches destIp) (headers : Nat) :
    (ipSend link destIp protocol data).payload headers = 0 := by
  rw [Sending.payload, (ipSend_unreached unreached).1]
  rfl

/-- The bytes behind two headers, where the frame takes the whole packet. -/
theorem payload_reached (reached : link.Reaches destIp) {inner : Nat} (fits : data.length ≤ 1480) :
    (ipSend link destIp protocol data).payload (20 + inner) = data.length - inner := by
  obtain ⟨frame, header, isFrame, payload, length, -, -⟩ :=
    @ipSend_reached link destIp protocol data reached
  rw [Sending.payload, isFrame, Option.map_some, Option.getD_some, payload, List.length_append,
    length, List.length_take]
  change 20 + min 1480 data.length - _ = _
  omega

theorem true_cons {sending : Sending} {fill : Fill} :
    Sending.True ⟨fill :: sending.fills, sending.frame⟩ ↔ fill.stop ≤ fill.size ∧ sending.True := by
  constructor
  · intro sent
    exact ⟨sent.fills fill (List.mem_cons_self ..),
      fun other member => sent.fills other (List.mem_cons_of_mem _ member), sent.fits, sent.total⟩
  · rintro ⟨first, sent⟩
    exact ⟨List.forall_mem_cons.mpr ⟨first, sent.fills⟩, sent.fits, sent.total⟩

theorem udp_true_iff (srcPort destPort : Nat) (word : data.length < 65536) :
    UdpTrue (udpSend link destIp srcPort destPort data) ↔
      (link.Reaches destIp → data.length ≤ 1472) ∧ (¬ link.Reaches destIp → data.length = 0) := by
  rw [udpSend]
  generalize isPacket : udpHeader srcPort destPort data.length ++
    data.take (packetSize - udpHeaderLen) = packet
  have length : packet.length = 8 + min 1492 data.length := by
    rw [← isPacket, List.length_append, List.length_take]
    rfl
  have filled : udpHeaderLen + (data.take (packetSize - udpHeaderLen)).length ≤ packetSize := by
    rw [List.length_take]
    change 8 + min 1492 data.length ≤ 1500
    omega
  have ipTrue := @ip_true_iff link destIp ipProtoUdp packet (by rw [length]; omega)
  by_cases reached : link.Reaches destIp
  · rw [length] at ipTrue
    constructor
    · intro sent
      refine ⟨fun _ => ?_, fun out => absurd reached out⟩
      have short := ipTrue.mp (true_cons.mp sent.sending).2 reached
      omega
    · rintro ⟨fits, -⟩
      have fits := fits reached
      have bound : packet.length ≤ 1480 := by
        rw [length]
        omega
      obtain ⟨frame, header, isFrame, payload, headerLength, -, -⟩ :=
        @ipSend_reached link destIp ipProtoUdp packet reached
      refine ⟨true_cons.mpr ⟨filled, ipTrue.mpr fun _ => by omega⟩, fun other isOther => ?_, ?_⟩
      · obtain rfl := Option.some.inj (isFrame.symm.trans isOther)
        have behind : (framePayload frame).drop ipHeaderLen = packet := by
          rw [payload, List.drop_left' headerLength, List.take_of_length_le bound]
        have written : udpLength frame = (8 + data.length) % 65536 := by
          rw [udpLength, behind, ← isPacket, value_word16]
          change 256 * (UInt8.ofNat ((8 + data.length) / 256)).toNat +
            (UInt8.ofNat (8 + data.length)).toNat = _
          rw [UInt8.toNat_ofNat', UInt8.toNat_ofNat']
          omega
        have present : (framePayload frame).length - ipHeaderLen = packet.length := by
          rw [← behind, List.length_drop]
        rw [written, present, length]
        omega
      · have bytes := @payload_reached link destIp ipProtoUdp packet reached 8 bound
        change ((data.take 1492).length : Int) =
          ((ipSend link destIp ipProtoUdp packet).payload (20 + 8) : Nat)
        rw [bytes, length, List.length_take]
        omega
  · have nothing := @payload_unreached link destIp ipProtoUdp packet reached 28
    constructor
    · intro sent
      refine ⟨fun is => absurd is reached, fun _ => ?_⟩
      have result : ((data.take 1492).length : Int) =
        ((ipSend link destIp ipProtoUdp packet).payload 28 : Nat) := sent.result
      rw [nothing, List.length_take] at result
      omega
    · rintro ⟨-, empty⟩
      have empty := empty reached
      refine ⟨true_cons.mpr ⟨filled, ipTrue.mpr fun is => absurd is reached⟩, fun frame is => ?_, ?_⟩
      · cases (ipSend_unreached reached).1.symm.trans is
      · change ((data.take 1492).length : Int) =
          ((ipSend link destIp ipProtoUdp packet).payload 28 : Nat)
        rw [nothing, List.length_take, empty]
        rfl

theorem tcpSegment_length (srcIp : Nat) (conn : TcpConn) (flags : Nat) (data : List UInt8) :
    (tcpSegment srcIp conn flags data).length = 20 + data.length := by
  rw [tcpSegment, (storeWord_differ _ _ _).length, List.length_append, tcpHeader_length]

/-- A packet for an interface goes through `ip_send` behind its own buffer. -/
theorem tcpSendPacket_netif {netif : Netif} (isNetif : link.netif = some netif) (flags : Nat) :
    ∃ segment : List UInt8, segment.length = (20 + data.length) % 65536 ∧
      tcpSendPacket link conn flags data =
        ⟨⟨20 + data.length, 1500⟩ :: (ipSend link conn.remoteIp ipProtoTcp segment).fills,
          (ipSend link conn.remoteIp ipProtoTcp segment).frame⟩ := by
  refine ⟨(tcpSegment netif.ip conn flags data).take ((20 + data.length) % 65536), ?_, ?_⟩
  · rw [List.length_take, tcpSegment_length]
    omega
  · rw [tcpSendPacket, isNetif]

/-- What `tcp_send_packet` needs: the result and the sequence number count its payload. -/
theorem tcpPacket_true_iff (flags : Nat) (word : data.length < 65536) :
    (tcpSendPacket link conn flags data).True ∧
        data.length = (tcpSendPacket link conn flags data).payload 40 ↔
      (link.Reaches conn.remoteIp → data.length ≤ 1460) ∧
        (¬ link.Reaches conn.remoteIp → data.length = 0) := by
  cases isNetif : link.netif with
  | none =>
      have unreached : ¬ link.Reaches conn.remoteIp := by
        rintro ⟨netif, is, -⟩
        cases isNetif.symm.trans is
      rw [tcpSendPacket, isNetif]
      constructor
      · rintro ⟨-, same⟩
        exact ⟨fun is => absurd is unreached, fun _ => same⟩
      · rintro ⟨-, empty⟩
        refine ⟨⟨fun fill is => ?_, fun frame is => ?_, fun frame is => ?_⟩, empty unreached⟩
        · cases is
        · cases is
        · cases is
  | some netif =>
      obtain ⟨segment, length, isPacket⟩ :=
        @tcpSendPacket_netif link data conn netif isNetif flags
      have ipTrue := @ip_true_iff link conn.remoteIp ipProtoTcp segment (by rw [length]; omega)
      have samePayload : (tcpSendPacket link conn flags data).payload 40 =
          (ipSend link conn.remoteIp ipProtoTcp segment).payload 40 := by
        rw [isPacket]
        rfl
      rw [samePayload, isPacket, true_cons]
      dsimp only
      by_cases reached : link.Reaches conn.remoteIp
      · constructor
        · rintro ⟨⟨filled, sent⟩, -⟩
          refine ⟨fun _ => ?_, fun out => absurd reached out⟩
          have short := ipTrue.mp sent reached
          omega
        · rintro ⟨fits, -⟩
          have fits := fits reached
          refine ⟨⟨by omega, ipTrue.mpr fun _ => by omega⟩, ?_⟩
          rw [@payload_reached _ _ _ segment reached 20 (by omega)]
          omega
      · rw [payload_unreached reached]
        constructor
        · rintro ⟨-, same⟩
          exact ⟨fun is => absurd is reached, fun _ => same⟩
        · rintro ⟨-, empty⟩
          have empty := empty reached
          exact ⟨⟨by omega, ipTrue.mpr fun is => absurd is reached⟩, empty⟩

theorem tcp_true_iff (word : data.length < 65536) (seqWord : conn.seq < 4294967296) :
    TcpTrue conn (tcpSend link conn data) ↔ conn.state ≠ .established ∨
      (link.Reaches conn.remoteIp → data.length ≤ 1460) ∧
        (¬ link.Reaches conn.remoteIp → data.length = 0) := by
  rw [tcpSend]
  by_cases closed : conn.state ≠ .established
  · rw [if_pos closed]
    refine iff_of_true ⟨⟨fun fill is => ?_, fun frame is => ?_, fun frame is => ?_⟩,
      .inl ⟨rfl, rfl⟩, ?_⟩ (.inl closed)
    · cases is
    · cases is
    · cases is
    · exact (Nat.mod_eq_of_lt seqWord).symm
  · rw [if_neg closed, or_iff_right closed, ← tcpPacket_true_iff (tcpAck ||| tcpPsh) word]
    constructor
    · rintro ⟨sent, result, seq⟩
      refine ⟨sent, ?_⟩
      rcases result with ⟨error, -⟩ | same
      · have result : (data.length : Int) = -1 := error
        omega
      · exact Int.ofNat.inj same
    · rintro ⟨sent, same⟩
      refine ⟨sent, .inr (congrArg Int.ofNat same), ?_⟩
      exact congrArg (fun bytes => u32 (conn.seq + bytes)) same

/-- Every length that its sender reports and writes is the true one exactly up to the payload of
one frame, and, where nothing goes out, for the empty payload of a transport protocol. -/
theorem sent_lengths_iff (link : Link) (destIp protocol srcPort destPort : Nat) (conn : TcpConn)
    (data : List UInt8) (word : data.length < 65536) (seqWord : conn.seq < 4294967296) :
    ((ipSend link destIp protocol data).True ↔ (link.Reaches destIp → data.length ≤ 1480)) ∧
    (UdpTrue (udpSend link destIp srcPort destPort data) ↔
      (link.Reaches destIp → data.length ≤ 1472) ∧ (¬ link.Reaches destIp → data.length = 0)) ∧
    (TcpTrue conn (tcpSend link conn data) ↔ conn.state ≠ .established ∨
      (link.Reaches conn.remoteIp → data.length ≤ 1460) ∧
        (¬ link.Reaches conn.remoteIp → data.length = 0)) :=
  ⟨ip_true_iff word, udp_true_iff srcPort destPort word, tcp_true_iff word seqWord⟩

/-- An interface at 10.0.2.15 whose neighbour 10.0.2.2 is cached. -/
def wiredLink : Link where
  netif := some ⟨fun _ => 0x52, 0x0A00020F, 0xFFFFFF00, 0x0A000202⟩
  ipId := 1
  caches := fun _ => arpAddEntry arpInit 0x0A000202 fun _ => 0x54

theorem wiredLink_reaches : wiredLink.Reaches 0x0A000202 := by
  refine ⟨_, rfl, by decide, List.findSome?_isSome_iff.mpr ⟨0, List.mem_range.mpr (by decide), ?_⟩⟩
  decide

/-- A datagram of 1473 bytes goes out cut short under its full length, and a segment of 1481 bytes
runs over the end of the packet on the stack. -/
theorem sent_lengths_false :
    ¬ UdpTrue (udpSend wiredLink 0x0A000202 53 53 (List.replicate 1473 0)) ∧
    ¬ TcpTrue { TcpConn.zero with remoteIp := 0x0A000202, state := .established }
      (tcpSend wiredLink { TcpConn.zero with remoteIp := 0x0A000202, state := .established }
        (List.replicate 1481 0)) := by
  constructor
  · rw [udp_true_iff _ _ (by rw [List.length_replicate]; decide), List.length_replicate]
    intro fits
    exact absurd (fits.1 wiredLink_reaches) (by decide)
  · rw [tcp_true_iff (by rw [List.length_replicate]; decide) (by decide), List.length_replicate]
    rintro (closed | fits)
    · exact closed rfl
    · exact absurd (fits.1 wiredLink_reaches) (by decide)

theorem sent_lengths_iff_three :
    ((ipSend wiredLink 0x0A000202 ipProtoUdp [1, 2, 3]).True ↔
      (wiredLink.Reaches 0x0A000202 → 3 ≤ 1480)) ∧
    (UdpTrue (udpSend wiredLink 0x0A000202 53 53 [1, 2, 3]) ↔
      (wiredLink.Reaches 0x0A000202 → 3 ≤ 1472) ∧ (¬ wiredLink.Reaches 0x0A000202 → 3 = 0)) ∧
    (TcpTrue TcpConn.zero (tcpSend wiredLink TcpConn.zero [1, 2, 3]) ↔
      TcpConn.zero.state ≠ .established ∨
        (wiredLink.Reaches TcpConn.zero.remoteIp → 3 ≤ 1460) ∧
          (¬ wiredLink.Reaches TcpConn.zero.remoteIp → 3 = 0)) :=
  sent_lengths_iff wiredLink 0x0A000202 ipProtoUdp 53 53 TcpConn.zero [1, 2, 3] (by decide)
    (by decide)

end Wire

end ZurichOS
