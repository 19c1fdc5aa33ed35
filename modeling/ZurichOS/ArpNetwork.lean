import Mathlib.Data.Fintype.Option
import ZurichOS.Transitions
import ZurichOS.Wire

set_option linter.all false

/-!
Hosts that ask for each other's addresses with `arp.c`, on interfaces that keep their addresses.  A
frame that has been sent is delivered at any time, to any host, any number of times, with any bytes
behind it, or not at all.
-/

namespace ZurichOS.ArpNetwork

open Wire

abbrev arpHtypeEth : Nat := 1
abbrev arpPtypeIp : Nat := 0x0800
abbrev arpOpRequest : Nat := 1
abbrev arpOpReply : Nat := 2
abbrev arpHeaderLen : Nat := 28
abbrev ethTypeArp : Nat := 0x0806

def broadcastMac : List UInt8 := [0xFF, 0xFF, 0xFF, 0xFF, 0xFF, 0xFF]

def networkLong (value : Nat) : List UInt8 := networkWord (value / 65536) ++ networkWord value

def readWord (bytes : List UInt8) (offset : Nat) : Nat :=
  256 * (bytes.getD offset 0).toNat + (bytes.getD (offset + 1) 0).toNat

def readLong (bytes : List UInt8) (offset : Nat) : Nat :=
  65536 * readWord bytes offset + readWord bytes (offset + 2)

def readMac (bytes : List UInt8) (offset : Nat) : Nat → UInt8 := fun i => bytes.getD (offset + i) 0

/-- The bytes of an `arp_header_t`, as `arp_request` and `arp_receive` fill it in. -/
def arpHeader (oper : Nat) (sha : Nat → UInt8) (spa : Nat) (tha : Nat → UInt8) (tpa : Nat) :
    List UInt8 :=
  networkWord arpHtypeEth ++ networkWord arpPtypeIp ++ [6, 4] ++ networkWord oper ++
    macBytes sha ++ networkLong spa ++ macBytes tha ++ networkLong tpa

structure Host where
  netif : Netif
  cache : ArpCache

/-- The frame that goes out. -/
def arpRequest (netif : Netif) (ip : Nat) : Option (List UInt8) :=
  (ethSend netif broadcastMac ethTypeArp
    (arpHeader arpOpRequest netif.mac netif.ip (fun _ => 0) ip)).frame

/-- The frame that goes out in answer. -/
def arpReply (netif : Netif) (sha : Nat → UInt8) (spa : Nat) : Option (List UInt8) :=
  (ethSend netif (macBytes sha) ethTypeArp
    (arpHeader arpOpReply netif.mac netif.ip sha spa)).frame

def arpReceive (host : Host) (packet : List UInt8) : Host × Option (List UInt8) :=
  if packet.length < arpHeaderLen then (host, none)
  else
    let oper := readWord packet 6
    let sha := readMac packet 8
    let spa := readLong packet 14
    let tpa := readLong packet 24
    ({ host with cache := arpAddEntry host.cache spa sha },
      if oper = arpOpRequest ∧ tpa = host.netif.ip then arpReply host.netif sha spa else none)

/-- What `ip_receive` makes a host send are events of their own; it leaves the cache alone. -/
def ethReceive (host : Host) (frame : List UInt8) : Host × Option (List UInt8) :=
  if frame.length < ethHlen then (host, none)
  else if readWord frame 12 = ethTypeArp then arpReceive host (frame.drop ethHlen)
  else (host, none)

variable {Name : Type}

/-- The hosts, and the frames that have been sent. -/
structure Network (Name : Type) where
  hosts : Name → Host
  sent : List (List UInt8)

def Network.send (net : Network Name) (frame : Option (List UInt8)) : Network Name :=
  { net with sent := net.sent ++ frame.toList }

def Network.request (net : Network Name) (name : Name) (ip : Nat) : Network Name :=
  net.send (arpRequest (net.hosts name).netif ip)

def Network.deliver [DecidableEq Name] (net : Network Name) (name : Name) (frame : List UInt8) :
    Network Name :=
  let received := ethReceive (net.hosts name) frame
  { net with hosts := Function.update net.hosts name received.1 }.send received.2

inductive Event (Name : Type)
  | request (name : Name) (ip : Nat)
  | ipSend (name : Name) (dest : List UInt8) (packet : List UInt8)
  | deliver (name : Name) (frame : List UInt8) (padding : List UInt8)

inductive Step [DecidableEq Name] (net : Network Name) : Event Name → Network Name → Prop
  | request (name : Name) (ip : Nat) : Step net (.request name ip) (net.request name ip)
  | ipSend (name : Name) {dest : List UInt8} (mac : dest.length = 6) (packet : List UInt8) :
      Step net (.ipSend name dest packet)
        (net.send (ethSend (net.hosts name).netif dest ethTypeIp packet).frame)
  | deliver (name : Name) {frame : List UInt8} (isSent : frame ∈ net.sent)
      (padding : List UInt8) :
      Step net (.deliver name frame padding) (net.deliver name (frame ++ padding))

def Network.Starts (netifs : Name → Netif) (net : Network Name) : Prop :=
  net = ⟨fun name => ⟨netifs name, arpInit⟩, []⟩

abbrev Reached [DecidableEq Name] (netifs : Name → Netif) : Network Name → Prop :=
  Transitions.Reachable (Network.Starts netifs) Step

/-- An ARP frame says of its sender what is true, and the others are no ARP frames. -/
inductive Genuine (netifs : Name → Netif) : List UInt8 → Prop
  | arp (name : Name) (dest : List UInt8) (mac : dest.length = 6) (oper : Nat)
      (tha : Nat → UInt8) (tpa : Nat) :
      Genuine netifs (dest ++ macBytes (netifs name).mac ++ networkWord ethTypeArp ++
        arpHeader oper (netifs name).mac (netifs name).ip tha tpa)
  | ip (name : Name) (dest : List UInt8) (mac : dest.length = 6) (packet : List UInt8) :
      Genuine netifs (dest ++ macBytes (netifs name).mac ++ networkWord ethTypeIp ++ packet)

/-- The entries of a cache are true, and no address has two. -/
structure Truthful (netifs : Name → Netif) (cache : ArpCache) : Prop where
  unique : cache.Unique
  entries : ∀ slot ip, cache.Holds slot ip →
    ∃ name, (netifs name).ip = ip ∧ macBytes (cache slot).mac = macBytes (netifs name).mac

structure Sound (netifs : Name → Netif) (net : Network Name) : Prop where
  netif : ∀ name, (net.hosts name).netif = netifs name
  sent : ∀ frame ∈ net.sent, Genuine netifs frame
  caches : ∀ name, Truthful netifs (net.hosts name).cache

variable {netifs : Name → Netif} {net after : Network Name} {event : Event Name}
  {name asker owner : Name} {frame padding dest : List UInt8} {mac tha : Nat → UInt8}
  {ip spa tpa oper : Nat} {host : Host} {cache : ArpCache}

theorem readWord_networkWord (value : Nat) : readWord (networkWord value) 0 = value % 65536 := by
  simp only [readWord, networkWord, List.getD_cons_zero, List.getD_cons_succ, UInt8.toNat_ofNat']
  omega

theorem readLong_networkLong (value : Nat) :
    readLong (networkLong value) 0 = value % 2 ^ 32 := by
  simp only [readLong, readWord, networkLong, networkWord, List.cons_append, List.nil_append,
    List.getD_cons_zero, List.getD_cons_succ, UInt8.toNat_ofNat']
  omega

theorem readWord_behind (head rest : List UInt8) :
    readWord (head ++ rest) head.length = readWord rest 0 := by
  rw [readWord, readWord, List.getD_append_right _ _ _ _ (Nat.le_refl _),
    List.getD_append_right _ _ _ _ (Nat.le_add_right _ 1), Nat.sub_self, Nat.add_sub_cancel_left]

theorem readType (isMac : dest.length = 6) (mac : Nat → UInt8) (type : Nat) (rest : List UInt8) :
    readWord (dest ++ macBytes mac ++ networkWord type ++ rest) 12 = type % 65536 := by
  have head : (dest ++ macBytes mac).length = 12 := by
    rw [List.length_append, isMac]
    rfl
  rw [List.append_assoc, ← head, readWord_behind]
  exact readWord_networkWord type

/-- What `arp_receive` reads is what the header was filled in with. -/
theorem readHeader (oper : Nat) (mac : Nat → UInt8) (spa : Nat) (tha : Nat → UInt8) (tpa : Nat)
    (rest : List UInt8) :
    let packet := arpHeader oper mac spa tha tpa ++ rest
    readWord packet 6 = oper % 65536 ∧ macBytes (readMac packet 8) = macBytes mac ∧
      readLong packet 14 = spa % 2 ^ 32 ∧ readLong packet 24 = tpa % 2 ^ 32 :=
  ⟨readWord_networkWord oper, rfl, readLong_networkLong spa, readLong_networkLong tpa⟩

theorem arpAddEntry_congr (same : macBytes tha = macBytes mac) (cache : ArpCache) (ip : Nat) :
    arpAddEntry cache ip tha = arpAddEntry cache ip mac := by
  have copies : ∀ old, copyMac old tha = copyMac old mac := by
    intro old
    funext i
    by_cases inside : i < 6
    · have equal := List.map_inj_left.mp same i (List.mem_range.mpr inside)
      rw [copyMac, copyMac, if_pos inside, if_pos inside, equal]
    · rw [copyMac, copyMac, if_neg inside, if_neg inside]
  simp only [arpAddEntry, copies]

theorem arpReply_congr (same : macBytes tha = macBytes mac) (netif : Netif) (spa : Nat) :
    arpReply netif tha spa = arpReply netif mac spa := by
  simp only [arpReply, arpHeader, same]

/-- An ARP frame enters its sender into the cache, and a request for the host is answered. -/
theorem ethReceive_arp (isMac : dest.length = 6) (fits : spa < 2 ^ 32) (host : Host)
    (padding : List UInt8) :
    ethReceive host (dest ++ macBytes mac ++ networkWord ethTypeArp ++
        arpHeader oper mac spa tha tpa ++ padding) =
      ({ host with cache := arpAddEntry host.cache spa mac },
        if oper % 65536 = arpOpRequest ∧ tpa % 2 ^ 32 = host.netif.ip then
          arpReply host.netif mac spa
        else none) := by
  obtain ⟨operIs, macIs, spaIs, tpaIs⟩ := readHeader oper mac spa tha tpa padding
  have head : (dest ++ macBytes mac ++ networkWord ethTypeArp).length = ethHlen := by
    simp [isMac, macBytes, networkWord]
  have header : (arpHeader oper mac spa tha tpa).length = arpHeaderLen := rfl
  have isArp : readWord (dest ++ macBytes mac ++ networkWord ethTypeArp ++
      arpHeader oper mac spa tha tpa ++ padding) 12 = ethTypeArp := by
    rw [List.append_assoc _ (arpHeader ..)]
    exact readType isMac mac ethTypeArp _
  rw [ethReceive, if_neg (by simp only [List.length_append] at head ⊢; omega), if_pos isArp,
    List.append_assoc _ (arpHeader ..), List.drop_left' head, arpReceive,
    if_neg (by rw [List.length_append, header]; omega)]
  simp only [operIs, spaIs, tpaIs, Nat.mod_eq_of_lt fits, arpAddEntry_congr macIs,
    arpReply_congr macIs]

theorem ethReceive_ip (isMac : dest.length = 6) (host : Host) (packet padding : List UInt8) :
    ethReceive host (dest ++ macBytes mac ++ networkWord ethTypeIp ++ packet ++ padding) =
      (host, none) := by
  have isIp : readWord (dest ++ macBytes mac ++ networkWord ethTypeIp ++ packet ++ padding) 12 =
      ethTypeIp := by
    rw [List.append_assoc _ packet]
    exact readType isMac mac ethTypeIp _
  have notArp : ethTypeIp ≠ ethTypeArp := by decide
  rw [ethReceive, isIp, if_neg notArp, ite_self]

theorem Truthful.add (truthful : Truthful netifs cache) (name : Name) :
    Truthful netifs (arpAddEntry cache (netifs name).ip (netifs name).mac) := by
  refine ⟨truthful.unique.add _ _, fun i ip holds => ?_⟩
  obtain ⟨slot, -, added, -⟩ := arpAddEntry_cases cache (netifs name).ip (netifs name).mac
  rw [added] at holds ⊢
  obtain ⟨inside, valid, same⟩ := holds
  by_cases own : i = slot
  · rw [own, Function.update_self] at same ⊢
    exact ⟨name, same, macBytes_copyMac _ _⟩
  · rw [Function.update_of_ne own] at valid same ⊢
    exact truthful.entries i ip ⟨inside, valid, same⟩

theorem Truthful.lookup (truthful : Truthful netifs cache) {bytes : List UInt8}
    (found : arpLookup cache ip = some bytes) :
    ∃ name, (netifs name).ip = ip ∧ bytes = macBytes (netifs name).mac := by
  obtain ⟨slot, hit, rfl⟩ := Option.map_eq_some_iff.mp found
  have inside := List.mem_range.mp (List.mem_of_find?_eq_some hit)
  have holds := List.find?_some hit
  exact truthful.entries slot ip ⟨inside, of_decide_eq_true holds⟩

theorem Truthful.lookup_added (truthful : Truthful netifs cache) (ip : Nat) (mac : Nat → UInt8) :
    arpLookup (arpAddEntry cache ip mac) ip = some (macBytes mac) := by
  obtain ⟨slot, within, added, -⟩ := arpAddEntry_cases cache ip mac
  have holds : (arpAddEntry cache ip mac).Holds slot ip := by
    rw [added]
    exact ⟨within, by rw [Function.update_self], by rw [Function.update_self]⟩
  rw [(truthful.unique.add ip mac).lookup holds, added, Function.update_self, macBytes_copyMac]

/-- With no more hosts than slots, there is a slot left for each of them. -/
theorem Truthful.not_full [Fintype Name] (truthful : Truthful netifs cache)
    (few : Fintype.card Name ≤ arpCacheSize) (name : Name) :
    ¬ cache.FullOfOthers (netifs name).ip := by
  intro full
  have owned : ∀ slot : Fin arpCacheSize, ∃ other, (netifs other).ip = (cache slot).ip :=
    fun slot => (truthful.entries slot _ ⟨slot.isLt, (full slot slot.isLt).1, rfl⟩).imp
      fun other is => is.1
  choose owner isOwner using owned
  -- The owners of the slots and the host itself are one more than there are slots.
  have injective : Function.Injective fun slot : Option (Fin arpCacheSize) =>
      slot.elim name owner := by
    rintro (_ | i) (_ | j) same
    · rfl
    · have isName : name = owner j := same
      exact absurd (isName ▸ isOwner j).symm (full j j.isLt).2
    · have isName : owner i = name := same
      exact absurd (isName ▸ isOwner i).symm (full i i.isLt).2
    · have isSame : owner i = owner j := same
      have ips : (cache i).ip = (cache j).ip := by rw [← isOwner, ← isOwner, isSame]
      exact congrArg some (Fin.ext (truthful.unique i i.isLt j j.isLt (full i i.isLt).1
        (full j j.isLt).1 ips))
  have count := Fintype.card_le_of_injective _ injective
  rw [Fintype.card_option, Fintype.card_fin] at count
  omega

/-- An entry stays when that of another host, or the same once more, is added. -/
theorem Truthful.kept [Fintype Name] (truthful : Truthful netifs cache)
    (few : Fintype.card Name ≤ arpCacheSize)
    (distinct : Function.Injective fun name => (netifs name).ip) {bytes : List UInt8}
    (known : arpLookup cache ip = some bytes) (name : Name) :
    arpLookup (arpAddEntry cache (netifs name).ip (netifs name).mac) ip = some bytes := by
  by_cases own : ip = (netifs name).ip
  · obtain ⟨owner, isIp, rfl⟩ := truthful.lookup known
    obtain rfl := distinct (isIp.trans own)
    rw [own]
    exact truthful.lookup_added _ _
  · rw [(truthful.unique.lookup_other _ own).2 fun full => truthful.not_full few name full.1]
    exact known

theorem Genuine.request (netifs : Name → Netif) (name : Name) (ip : Nat) :
    ∀ frame ∈ (arpRequest (netifs name) ip).toList, Genuine netifs frame := by
  intro frame member
  obtain rfl := List.mem_singleton.mp member
  exact .arp name broadcastMac rfl arpOpRequest (fun _ => 0) ip

theorem Genuine.reply (netifs : Name → Netif) (name : Name) (mac : Nat → UInt8) (spa : Nat) :
    ∀ frame ∈ (arpReply (netifs name) mac spa).toList, Genuine netifs frame := by
  intro frame member
  obtain rfl := List.mem_singleton.mp member
  exact .arp name (macBytes mac) rfl arpOpReply mac spa

theorem Sound.send (sound : Sound netifs net) {frame : Option (List UInt8)}
    (genuine : ∀ bytes ∈ frame.toList, Genuine netifs bytes) :
    Sound netifs (net.send frame) :=
  { sound with
    sent := fun bytes member =>
      (List.mem_append.mp member).elim (sound.sent bytes) (genuine bytes) }

/-- A genuine frame leaves the cache truthful, and is answered by a genuine one. -/
theorem Genuine.received (genuine : Genuine netifs frame)
    (fits : ∀ name, (netifs name).ip < 2 ^ 32) (isNetif : host.netif = netifs name)
    (truthful : Truthful netifs host.cache) (padding : List UInt8) :
    let received := ethReceive host (frame ++ padding)
    received.1.netif = netifs name ∧ Truthful netifs received.1.cache ∧
      ∀ bytes ∈ received.2.toList, Genuine netifs bytes := by
  cases genuine with
  | ip sender dest isMac packet =>
      rw [ethReceive_ip isMac]
      exact ⟨isNetif, truthful, fun bytes member => absurd member List.not_mem_nil⟩
  | arp sender dest isMac oper tha tpa =>
      rw [ethReceive_arp isMac (fits sender)]
      refine ⟨isNetif, truthful.add sender, ?_⟩
      dsimp only
      rw [isNetif]
      split
      · exact Genuine.reply netifs name _ _
      · exact fun bytes member => absurd member List.not_mem_nil

section Runs

variable [DecidableEq Name]

theorem Sound.deliver (sound : Sound netifs net) (fits : ∀ name, (netifs name).ip < 2 ^ 32)
    (isSent : frame ∈ net.sent) (name : Name) (padding : List UInt8) :
    Sound netifs (net.deliver name (frame ++ padding)) := by
  obtain ⟨netif, truthful, genuine⟩ :=
    (sound.sent frame isSent).received fits (sound.netif name) (sound.caches name) padding
  have updated : Sound netifs { net with
      hosts := Function.update net.hosts name
        (ethReceive (net.hosts name) (frame ++ padding)).1 } := by
    refine ⟨fun other => ?_, sound.sent, fun other => ?_⟩
    · by_cases own : other = name
      · subst own
        simpa using netif
      · simpa [own] using sound.netif other
    · by_cases own : other = name
      · subst own
        simpa using truthful
      · simpa [own] using sound.caches other
  exact updated.send genuine

theorem Sound.step (sound : Sound netifs net) (fits : ∀ name, (netifs name).ip < 2 ^ 32)
    (step : Step net event after) : Sound netifs after := by
  cases step with
  | request name ip =>
      apply sound.send
      rw [sound.netif name]
      exact Genuine.request netifs name ip
  | ipSend name isMac packet =>
      apply sound.send
      rw [sound.netif name]
      intro frame member
      obtain rfl := List.mem_singleton.mp member
      exact .ip name _ isMac _
  | deliver name isSent padding => exact sound.deliver fits isSent name padding

theorem sound_reached (fits : ∀ name, (netifs name).ip < 2 ^ 32) (reached : Reached netifs net) :
    Sound netifs net := by
  refine reached.invariant _ (fun start starts => ?_) fun before event after sound step =>
    sound.step fits step
  rw [starts]
  refine ⟨fun name => rfl, fun frame member => absurd member List.not_mem_nil, fun name => ?_⟩
  exact ⟨arpRun_unique [], fun slot ip holds => nomatch holds.2.1⟩

/-- Two hosts, of which the second has heard the question of the first. -/
def twoHosts (first : Bool) : Netif :=
  ⟨fun i => UInt8.ofNat (i + if first then 16 else 32), if first then 0x0A000001 else 0x0A000002,
    0xFFFFFF00, 0⟩

def twoAsked : Network Bool :=
  Network.request ⟨fun first => ⟨twoHosts first, arpInit⟩, []⟩ true 0x0A000002

def twoHeard : Network Bool := twoAsked.deliver false (twoAsked.sent.headD [] ++ [])

theorem twoHosts_fit (first : Bool) : (twoHosts first).ip < 2 ^ 32 := by
  cases first with
  | false => decide
  | true => decide

theorem twoHeard_reached : Reached twoHosts twoHeard := by
  have start : Reached twoHosts ⟨fun first => ⟨twoHosts first, arpInit⟩, []⟩ := .start rfl
  have asked : Reached twoHosts twoAsked := start.next (Step.request true 0x0A000002)
  exact asked.next (Step.deliver false List.mem_cons_self [])

theorem twoHeard_known : arpLookup (twoHeard.hosts false).cache 0x0A000001 =
    some [16, 17, 18, 19, 20, 21] := by
  decide

/-- In every run, an address that a host looks up is that of a host on the link, as that host has
it itself. -/
theorem addresses_true (fits : ∀ name, (netifs name).ip < 2 ^ 32) (reached : Reached netifs net)
    {bytes : List UInt8} (found : arpLookup (net.hosts name).cache ip = some bytes) :
    ∃ owner, (netifs owner).ip = ip ∧ bytes = macBytes (netifs owner).mac :=
  ((sound_reached fits reached).caches name).lookup found

theorem addresses_true_two : ∃ owner, (twoHosts owner).ip = 0x0A000001 ∧
    [16, 17, 18, 19, 20, 21] = macBytes (twoHosts owner).mac :=
  addresses_true twoHosts_fit twoHeard_reached twoHeard_known

/-- A step leaves a cache as it is, or enters a host. -/
theorem Step.entered (sound : Sound netifs net) (fits : ∀ name, (netifs name).ip < 2 ^ 32)
    (step : Step net event after) (name : Name) :
    (after.hosts name).cache = (net.hosts name).cache ∨ ∃ sender, (after.hosts name).cache =
      arpAddEntry (net.hosts name).cache (netifs sender).ip (netifs sender).mac := by
  cases step with
  | request => exact .inl rfl
  | ipSend => exact .inl rfl
  | deliver receiver isSent padding =>
      by_cases own : name = receiver
      · subst own
        cases sound.sent _ isSent with
        | ip sender dest isMac packet =>
            left
            rw [Network.deliver, ethReceive_ip isMac]
            simp [Network.send]
        | arp sender dest isMac oper tha tpa =>
            right
            rw [Network.deliver, ethReceive_arp isMac (fits sender)]
            exact ⟨sender, by simp [Network.send]⟩
      · left
        simp [Network.deliver, Network.send, own]

/-- With no more hosts on the link than slots in a cache, and no address given to two of them, a
host never forgets an address: whatever happens later, the lookup gives the same. -/
theorem addresses_kept [Fintype Name] (few : Fintype.card Name ≤ arpCacheSize)
    (distinct : Function.Injective fun name => (netifs name).ip)
    (fits : ∀ name, (netifs name).ip < 2 ^ 32) (reached : Reached netifs net)
    {bytes : List UInt8} (known : arpLookup (net.hosts name).cache ip = some bytes)
    (later : Transitions.Reachable (· = net) Step after) :
    arpLookup (after.hosts name).cache ip = some bytes := by
  suffices both : Sound netifs after ∧ arpLookup (after.hosts name).cache ip = some bytes from
    both.2
  refine later.invariant
    (fun state => Sound netifs state ∧ arpLookup (state.hosts name).cache ip = some bytes)
    (fun start isStart => ?_) ?_
  · obtain rfl : start = net := isStart
    exact ⟨sound_reached fits reached, known⟩
  rintro before event next ⟨sound, holds⟩ step
  refine ⟨sound.step fits step, ?_⟩
  rcases step.entered sound fits name with same | ⟨sender, added⟩
  · rw [same]
    exact holds
  · rw [added]
    exact (sound.caches name).kept few distinct holds sender

theorem addresses_kept_two :
    arpLookup ((twoHeard.request true 0x0A000002).hosts false).cache 0x0A000001 =
      some [16, 17, 18, 19, 20, 21] := by
  have start : Transitions.Reachable (· = twoHeard) Step twoHeard := .start rfl
  exact addresses_kept (by decide) (by decide) twoHosts_fit twoHeard_reached twoHeard_known
    (start.next (Step.request true 0x0A000002))

/-- What the delivery of an ARP frame of a host sends and enters. -/
theorem Sound.deliver_arp (sound : Sound netifs net) (fits : ∀ name, (netifs name).ip < 2 ^ 32)
    (dest : List UInt8) (isMac : dest.length = 6) (sender receiver : Name) (oper : Nat) (tha : Nat → UInt8) (tpa : Nat)
    (padding : List UInt8) :
    let heard := net.deliver receiver (dest ++ macBytes (netifs sender).mac ++
      networkWord ethTypeArp ++ arpHeader oper (netifs sender).mac (netifs sender).ip tha tpa ++
      padding)
    heard.sent = net.sent ++
        (if oper % 65536 = arpOpRequest ∧ tpa % 2 ^ 32 = (netifs receiver).ip then
          arpReply (netifs receiver) (netifs sender).mac (netifs sender).ip
        else none).toList ∧
      arpLookup (heard.hosts receiver).cache (netifs sender).ip =
        some (macBytes (netifs sender).mac) := by
  rw [Network.deliver, ethReceive_arp isMac (fits sender), sound.netif receiver]
  refine ⟨rfl, ?_⟩
  simpa [Network.send] using (sound.caches receiver).lookup_added (netifs sender).ip _

/-- The question of a host for another's address, and the answer: in whatever state of a run the
question is delivered, the owner of the address learns the asker's and answers it, and nobody else
answers; in whatever state the answer is delivered, the asker learns the owner's address, and no
answer is answered. -/
theorem address_resolved (fits : ∀ name, (netifs name).ip < 2 ^ 32) (asker owner : Name) :
    ∃ question answer : List UInt8,
      question.take 6 = broadcastMac ∧ answer.take 6 = macBytes (netifs asker).mac ∧
      (∀ net, Reached netifs net →
        (net.request asker (netifs owner).ip).sent = net.sent ++ [question]) ∧
      (∀ net, Reached netifs net → ∀ padding,
        let heard := net.deliver owner (question ++ padding)
        heard.sent = net.sent ++ [answer] ∧
          arpLookup (heard.hosts owner).cache (netifs asker).ip =
            some (macBytes (netifs asker).mac)) ∧
      (∀ net, Reached netifs net → ∀ padding other, (netifs other).ip ≠ (netifs owner).ip →
        (net.deliver other (question ++ padding)).sent = net.sent) ∧
      ∀ net, Reached netifs net → ∀ padding,
        let told := net.deliver asker (answer ++ padding)
        told.sent = net.sent ∧
          arpLookup (told.hosts asker).cache (netifs owner).ip =
            some (macBytes (netifs owner).mac) := by
  refine ⟨broadcastMac ++ macBytes (netifs asker).mac ++ networkWord ethTypeArp ++
      arpHeader arpOpRequest (netifs asker).mac (netifs asker).ip (fun _ => 0) (netifs owner).ip,
    macBytes (netifs asker).mac ++ macBytes (netifs owner).mac ++ networkWord ethTypeArp ++
      arpHeader arpOpReply (netifs owner).mac (netifs owner).ip (netifs asker).mac
        (netifs asker).ip,
    rfl, rfl, fun net reached => ?_, fun net reached padding => ?_,
    fun net reached padding other different => ?_, fun net reached padding => ?_⟩
  · have sound := sound_reached fits reached
    rw [Network.request, sound.netif asker]
    rfl
  · have sound := sound_reached fits reached
    obtain ⟨sends, learns⟩ := sound.deliver_arp fits broadcastMac rfl asker owner
      arpOpRequest (fun _ => 0) (netifs owner).ip padding
    refine ⟨sends.trans ?_, learns⟩
    rw [if_pos ⟨rfl, Nat.mod_eq_of_lt (fits owner)⟩]
    rfl
  · have sound := sound_reached fits reached
    obtain ⟨sends, -⟩ := sound.deliver_arp fits broadcastMac rfl asker other
      arpOpRequest (fun _ => 0) (netifs owner).ip padding
    refine sends.trans ?_
    rw [if_neg fun asked => different (asked.2.symm.trans (Nat.mod_eq_of_lt (fits owner)))]
    exact List.append_nil _
  · have sound := sound_reached fits reached
    obtain ⟨sends, learns⟩ := sound.deliver_arp fits (macBytes (netifs asker).mac) rfl
      owner asker arpOpReply (netifs asker).mac (netifs asker).ip padding
    have noRequest : arpOpReply % 65536 ≠ arpOpRequest := by decide
    refine ⟨sends.trans ?_, learns⟩
    rw [if_neg fun asked => noRequest asked.1]
    exact List.append_nil _

theorem address_resolved_two : ∃ answer : List UInt8, answer.take 6 = [16, 17, 18, 19, 20, 21] ∧
    ∀ net, Reached twoHosts net → ∀ padding,
      arpLookup ((net.deliver true (answer ++ padding)).hosts true).cache 0x0A000002 =
        some [32, 33, 34, 35, 36, 37] := by
  obtain ⟨_, answer, _, toAsker, _, _, _, told⟩ :=
    @address_resolved Bool twoHosts _ twoHosts_fit true false
  exact ⟨answer, toAsker, fun net reached padding => (told net reached padding).2⟩

theorem arpResolve_isSome (caches : Nat → ArpCache) (ip : Nat) :
    (arpResolve caches ip).isSome ↔ ∃ polls ≤ arpPolls, (arpLookup (caches polls) ip).isSome := by
  rw [arpResolve, List.findSome?_isSome_iff]
  simp only [List.mem_range, Nat.lt_succ_iff]

/-- A packet of an interface without an address, or one whose next hop stays unknown, is dropped. -/
theorem ipSend_quiet {link : Link} {netif : Netif} (isNetif : link.netif = some netif)
    (destIp protocol : Nat) (data : List UInt8)
    (unsent : netif.ip = 0 ∨ arpResolve link.caches (nextHop netif destIp) = none) :
    (ipSend link destIp protocol data).frame = none := by
  rw [ipSend]
  split
  · rfl
  · rename_i other isOther
    obtain rfl := Option.some.inj (isOther.symm.trans isNetif)
    split
    · rfl
    · rename_i address
      split
      · rfl
      · rename_i mac resolved
        cases (unsent.resolve_left address).symm.trans resolved

/-- A packet whose next hop is resolved goes out to the address found. -/
theorem ipSend_goes {link : Link} {netif : Netif} (isNetif : link.netif = some netif)
    (destIp protocol : Nat) (data : List UInt8) (address : netif.ip ≠ 0) {mac : List UInt8}
    (resolved : arpResolve link.caches (nextHop netif destIp) = some mac) :
    ∃ rest, (ipSend link destIp protocol data).frame = some (mac ++ rest) := by
  rw [ipSend]
  split
  · rename_i unset
    cases unset.symm.trans isNetif
  · rename_i other isOther
    obtain rfl := Option.some.inj (isOther.symm.trans isNetif)
    split
    · rename_i unset
      exact absurd unset address
    · split
      · rename_i unresolved
        cases unresolved.symm.trans resolved
      · rename_i found isFound
        obtain rfl := Option.some.inj (isFound.symm.trans resolved)
        simp only [ethSend, List.append_assoc]
        exact ⟨_, rfl⟩

/-- With the caches that a host has before and after each poll of a call of `ip_send`, the packet
goes out exactly when one of them has the next hop, and it goes to the host of that address. -/
theorem packets_to_next_hop (fits : ∀ name, (netifs name).ip < 2 ^ 32) {link : Link}
    {states : Nat → Network Name} (reached : ∀ polls, Reached netifs (states polls))
    (isNetif : link.netif = some (netifs name))
    (isCache : ∀ polls, link.caches polls = ((states polls).hosts name).cache)
    (destIp protocol : Nat) (data : List UInt8) :
    let frame := (ipSend link destIp protocol data).frame
    let hop := nextHop (netifs name) destIp
    (frame.isSome ↔ (netifs name).ip ≠ 0 ∧
      ∃ polls ≤ arpPolls, (arpLookup ((states polls).hosts name).cache hop).isSome) ∧
    ∀ bytes, frame = some bytes →
      ∃ owner, (netifs owner).ip = hop ∧ bytes.take 6 = macBytes (netifs owner).mac := by
  intro frame hop
  have resolves := arpResolve_isSome link.caches hop
  simp only [isCache] at resolves
  by_cases unset : (netifs name).ip = 0
  · have quiet : frame = none := ipSend_quiet isNetif destIp protocol data (.inl unset)
    rw [quiet]
    exact ⟨by simp [unset], fun bytes isSome => nomatch isSome⟩
  · cases answer : arpResolve link.caches hop with
    | none =>
        have quiet : frame = none := ipSend_quiet isNetif destIp protocol data (.inr answer)
        rw [answer] at resolves
        rw [quiet, ← resolves]
        exact ⟨by simp, fun bytes isSome => nomatch isSome⟩
    | some mac =>
        obtain ⟨polls, -, found⟩ := List.exists_of_findSome?_eq_some answer
        rw [isCache] at found
        obtain ⟨owner, isHop, rfl⟩ :=
          ((sound_reached fits (reached polls)).caches name).lookup found
        obtain ⟨rest, isFrame⟩ := ipSend_goes isNetif destIp protocol data unset answer
        have sent : frame = some (macBytes (netifs owner).mac ++ rest) := isFrame
        rw [answer] at resolves
        rw [sent, ← resolves]
        refine ⟨by simp [unset], fun bytes same => ⟨owner, isHop, ?_⟩⟩
        obtain rfl := Option.some.inj same
        exact List.take_left' rfl

theorem packets_to_next_hop_two :
    (ipSend ⟨some (twoHosts false), 0, fun _ => (twoHeard.hosts false).cache⟩ 0x0A000001 17
      []).frame.isSome := by
  have goes := (@packets_to_next_hop Bool twoHosts false _ twoHosts_fit
    ⟨some (twoHosts false), 0, fun _ => (twoHeard.hosts false).cache⟩ (fun _ => twoHeard)
    (fun _ => twoHeard_reached) rfl (fun _ => rfl) 0x0A000001 17 []).1
  have near : nextHop (twoHosts false) 0x0A000001 = 0x0A000001 := by decide
  refine goes.mpr ⟨by decide, 0, Nat.zero_le _, ?_⟩
  rw [near, twoHeard_known]
  rfl

end Runs

end ZurichOS.ArpNetwork
