import ZurichOS.DnsCore
import ZurichOS.Transitions

set_option linter.all false

/-!
Which response an address comes from.  `dns_receive` stores every address it finds, so
the one `dns_resolve` returns is that of the last response with an address among those
that arrive until a poll brings a response.
-/

namespace ZurichOS

open Words ByteReader Transitions

/-! Turns enough to walk a name. -/

theorem dnsSkipQuestion_succ {stop turns ptr : Nat} (enough : stop ≤ ptr + turns) :
    dnsSkipQuestion stop (turns + 1) ptr = dnsSkipQuestion stop turns ptr := by
  induction turns generalizing ptr with
  | zero =>
      rw [dnsSkipQuestion, dnsSkipQuestion, if_neg (by omega)]
  | succ turns ih =>
      rw [dnsSkipQuestion, dnsSkipQuestion]
      have later (length : Nat) : dnsSkipQuestion stop (turns + 1) (ptr + length + 1) =
          dnsSkipQuestion stop turns (ptr + length + 1) := ih (by omega)
      simp only [later]

theorem dnsSkipLabels_succ {stop turns ptr : Nat} (enough : stop ≤ ptr + turns) :
    dnsSkipLabels stop (turns + 1) ptr = dnsSkipLabels stop turns ptr := by
  induction turns generalizing ptr with
  | zero =>
      rw [dnsSkipLabels, dnsSkipLabels, if_neg (by omega)]
  | succ turns ih =>
      rw [dnsSkipLabels, dnsSkipLabels]
      have later (length : Nat) : dnsSkipLabels stop (turns + 1) (ptr + length + 1) =
          dnsSkipLabels stop turns (ptr + length + 1) := ih (by omega)
      simp only [later]

/-! The responses one call hands to `dns_receive`. -/

def dnsAddress (d : Datagram) : Option Nat :=
  match dnsReply d with
  | .resolved ip => some ip
  | _ => none

def dnsConcludes (d : Datagram) : Bool := decide (dnsReply d ≠ .ignored)

/-- The responses handed over by the polls, the last of which is the first to bring one that
concludes. -/
def dnsPolled (ready : Bool) : List (List Datagram) → List Datagram
  | [] => []
  | poll :: rest => if ready then [] else poll ++ dnsPolled (poll.any dnsConcludes) rest

/-- The responses that arrive while the query is outstanding. -/
def dnsOutstanding (sending : List Datagram) (polls : List (List Datagram)) : List Datagram :=
  sending ++ dnsPolled (sending.any dnsConcludes) (polls.take dnsPollLimit)

/-- The last response with an address, and the address. -/
def dnsTaken (handled : List Datagram) : Option (Datagram × Nat) :=
  (handled.filterMap fun d => (dnsAddress d).map fun ip => (d, ip)).getLast?

section Receive

variable (s : Dns) (d : Datagram)

theorem dnsReceive_resultIp :
    (dnsReceive s d).resultIp = (dnsAddress d).getD s.resultIp := by
  unfold dnsReceive dnsAddress
  cases dnsReply d <;> rfl

theorem dnsReceive_resultReady :
    (dnsReceive s d).resultReady = (s.resultReady || dnsConcludes d) := by
  unfold dnsReceive dnsConcludes
  cases dnsReply d <;> simp

@[simp] theorem dnsReceive_cache : (dnsReceive s d).cache = s.cache := by
  unfold dnsReceive
  cases dnsReply d <;> rfl

@[simp] theorem dnsReceive_id : (dnsReceive s d).id = s.id := by
  unfold dnsReceive
  cases dnsReply d <;> rfl

@[simp] theorem dnsReceive_sent : (dnsReceive s d).sent = s.sent := by
  unfold dnsReceive
  cases dnsReply d <;> rfl

variable (datagrams more : List Datagram)

@[simp] theorem dnsReceiveAll_append :
    dnsReceiveAll s (datagrams ++ more) = dnsReceiveAll (dnsReceiveAll s datagrams) more :=
  List.foldl_append

theorem dnsReceiveAll_snoc :
    dnsReceiveAll s (datagrams ++ [d]) = dnsReceive (dnsReceiveAll s datagrams) d := by
  rw [dnsReceiveAll_append]
  rfl

/-- What a datagram leaves alone, any number of them leave alone. -/
theorem dnsReceiveAll_frame {α : Type} (field : Dns → α)
    (same : ∀ s d, field (dnsReceive s d) = field s) :
    field (dnsReceiveAll s datagrams) = field s := by
  induction datagrams generalizing s with
  | nil => rfl
  | cons d rest ih => exact (ih (dnsReceive s d)).trans (same s d)

theorem dnsReceiveAll_resultReady :
    (dnsReceiveAll s datagrams).resultReady = (s.resultReady || datagrams.any dnsConcludes) := by
  induction datagrams generalizing s with
  | nil => simp [dnsReceiveAll]
  | cons d rest ih =>
      have later := ih (dnsReceive s d)
      rw [dnsReceive_resultReady, Bool.or_assoc] at later
      exact later

theorem dnsTaken_snoc : dnsTaken (datagrams ++ [d]) =
    ((dnsAddress d).map fun ip => (d, ip)).or (dnsTaken datagrams) := by
  rw [dnsTaken, List.filterMap_append, List.getLast?_append, List.filterMap_cons]
  cases dnsAddress d <;> rfl

/-- The last response with an address decides. -/
theorem dnsReceiveAll_resultIp : (dnsReceiveAll s datagrams).resultIp =
    ((dnsTaken datagrams).map Prod.snd).getD s.resultIp := by
  induction datagrams using List.reverseRecOn with
  | nil => rfl
  | append_singleton datagrams d ih =>
      rw [dnsReceiveAll_snoc, dnsReceive_resultIp, ih, dnsTaken_snoc]
      cases dnsAddress d <;> rfl

theorem dnsWait_eq (polls : List (List Datagram)) :
    dnsWait s polls = dnsReceiveAll s (dnsPolled s.resultReady polls) := by
  induction polls generalizing s with
  | nil => rfl
  | cons poll rest ih =>
      rw [dnsWait, dnsPolled]
      by_cases ready : s.resultReady = true
      · rw [if_pos ready, if_pos ready]
        rfl
      · have waits : s.resultReady = false := Bool.eq_false_iff.mpr ready
        rw [if_neg ready, if_neg ready, ih, dnsReceiveAll_append, dnsReceiveAll_resultReady, waits,
          Bool.false_or]

/-- All that arrives while a query is outstanding is handled. -/
theorem dnsWait_outstanding (idle : s.resultReady = false) (sending : List Datagram)
    (polls : List (List Datagram)) :
    dnsWait (dnsReceiveAll s sending) (polls.take dnsPollLimit) =
      dnsReceiveAll s (dnsOutstanding sending polls) := by
  rw [dnsWait_eq, dnsReceiveAll_resultReady, idle, Bool.false_or, dnsOutstanding,
    dnsReceiveAll_append]

end Receive

theorem dnsTaken_mem {handled : List Datagram} {d : Datagram} {ip : Nat}
    (taken : dnsTaken handled = some (d, ip)) : d ∈ handled ∧ dnsReply d = .resolved ip := by
  have member := List.mem_of_getLast? taken
  obtain ⟨from_, inside, found⟩ := List.mem_filterMap.mp member
  obtain ⟨addr, address, pair⟩ := Option.map_eq_some_iff.mp found
  obtain ⟨rfl, rfl⟩ := Prod.mk.inj pair
  refine ⟨inside, ?_⟩
  unfold dnsAddress at address
  cases reply : dnsReply from_ with
  | ignored => rw [reply] at address; cases address
  | unresolved => rw [reply] at address; cases address
  | resolved found =>
      rw [reply] at address
      rw [Option.some.inj address]

/-! Queries and the addresses they give. -/

def dnsMessageId (data : Bytes) : Nat := (word16 0).value data

/-- A query sent, and the responses handed to `dns_receive` while it was outstanding. -/
structure DnsAsked where
  hostname : List UInt8
  packet : List UInt8
  handled : List Datagram

/-- The address is taken from a response whose id is the query's. -/
def DnsAsked.Gives (q : DnsAsked) (ip : Nat) : Prop :=
  ∃ d, dnsTaken q.handled = some (d, ip) ∧ dnsMessageId d.data = dnsMessageId (ofList q.packet)

def DnsAnswered (queries : List DnsAsked) (hostname : List UInt8) (ip : Nat) : Prop :=
  ∃ q ∈ queries, q.hostname = hostname ∧ q.Gives ip

/-- Every valid entry of the cache holds an address a query for its name was given. -/
def DnsCached (s : Dns) (queries : List DnsAsked) : Prop :=
  ∀ i, (s.cache i).valid = true → DnsAnswered queries (s.cache i).name (s.cache i).ip

theorem DnsAnswered.more {queries later : List DnsAsked} {hostname : List UInt8} {ip : Nat}
    (answered : DnsAnswered queries hostname ip) :
    DnsAnswered (queries ++ later) hostname ip := by
  obtain ⟨q, member, rest⟩ := answered
  exact ⟨q, List.mem_append_left _ member, rest⟩

theorem DnsCached.more {s : Dns} {queries later : List DnsAsked} (cached : DnsCached s queries) :
    DnsCached s (queries ++ later) := fun i valid => (cached i valid).more

theorem DnsCached.congr {s other : Dns} {queries : List DnsAsked} (cached : DnsCached s queries)
    (same : other.cache = s.cache) : DnsCached other queries := by
  intro i
  rw [same]
  exact cached i

theorem DnsCached.lookup {s : Dns} {queries : List DnsAsked} (cached : DnsCached s queries)
    {hostname : List UInt8} {ip : Nat} (found : dnsCacheLookup s hostname = some ip) :
    DnsAnswered queries hostname ip := by
  obtain ⟨i, slot, rfl⟩ := Option.map_eq_some_iff.mp found
  have holds := List.find?_some slot
  obtain ⟨valid, rfl⟩ := of_decide_eq_true holds
  exact cached i valid

theorem DnsCached.add {s : Dns} {queries : List DnsAsked} (cached : DnsCached s queries)
    {hostname : List UInt8} {ip ttl : Nat} (fits : hostname.length < dnsMaxNameLen)
    (answered : DnsAnswered queries hostname ip) :
    DnsCached (dnsCacheAdd s hostname ip ttl) queries := by
  intro i
  unfold dnsCacheAdd
  dsimp only
  split
  · intro _
    rw [List.take_of_length_le (by omega)]
    exact answered
  · exact cached i

theorem dnsQueryPacket_id {id : Nat} (bound : id < 65536) (hostname : List UInt8) :
    dnsMessageId (ofList (dnsQueryPacket id hostname)) = id := by
  have high : ofList (dnsQueryPacket id hostname) 0 = .ofNat (id / 256) := rfl
  have low : ofList (dnsQueryPacket id hostname) 1 = .ofNat id := rfl
  rw [dnsMessageId, word16]
  simp only [value_bind, value_byte, value_pure, high, low, UInt8.toNat_ofNat']
  omega

theorem dnsEncodeLabels_length (label name : List UInt8) :
    (dnsEncodeLabels label name).length ≤ label.length + name.length + 1 := by
  induction name generalizing label with
  | nil =>
      rw [dnsEncodeLabels]
      split
      · exact Nat.zero_le _
      · exact Nat.le_refl _
  | cons char rest ih =>
      rw [dnsEncodeLabels]
      split
      · have tail := ih []
        simp only [List.length_append, dnsEncodeLabel, List.length_cons, List.length_nil] at tail ⊢
        omega
      · have tail := ih (label ++ [char])
        simp only [List.length_append, List.length_cons, List.length_nil] at tail ⊢
        omega

/-- A name that fits a cache entry fits the packet. -/
theorem dnsQueryPacket_length {id : Nat} {hostname : List UInt8}
    (fits : hostname.length < dnsMaxNameLen) :
    (dnsQueryPacket id hostname).length ≤ dnsPacketSize := by
  have labels := dnsEncodeLabels_length [] hostname
  simp only [dnsQueryPacket, dnsEncodeName, be16, List.length_append, List.length_replicate,
    List.length_cons, List.length_nil, dnsMaxNameLen, dnsPacketSize] at fits labels ⊢
  omega

/-- What a query does: it fails and caches nothing, or it returns and caches the address of
the last response with one. -/
theorem dnsQuery_cases (s : Dns) (hostname : List UInt8) (sending : List Datagram)
    (polls : List (List Datagram)) :
    (dnsQuery s hostname sending polls).code = -1 ∧
        (dnsQuery s hostname sending polls).state.cache = s.cache ∨
      ∃ d ip, dnsTaken (dnsOutstanding sending polls) = some (d, ip) ∧ ip ≠ 0 ∧
        (dnsQuery s hostname sending polls).stored = some ip ∧
        (dnsQuery s hostname sending polls).state.cache =
          (dnsCacheAdd s hostname ip 300).cache := by
  unfold dnsQuery
  dsimp only
  rw [dnsWait_outstanding _ rfl]
  have address := dnsReceiveAll_resultIp (dnsSend
    { s with id := (s.id + 1) % 65536, resultReady := false, resultIp := 0 }
    (dnsQueryPacket s.id hostname)) (dnsOutstanding sending polls)
  have cache := dnsReceiveAll_frame (dnsSend
    { s with id := (s.id + 1) % 65536, resultReady := false, resultIp := 0 }
    (dnsQueryPacket s.id hostname)) (dnsOutstanding sending polls) Dns.cache dnsReceive_cache
  split
  next found =>
    right
    cases taken : dnsTaken (dnsOutstanding sending polls) with
    | none =>
        rw [taken] at address
        exact absurd address found.2
    | some response =>
        rw [taken] at address
        refine ⟨response.1, response.2, rfl, ?_, congrArg some address, ?_⟩
        · rw [← show _ = response.2 from address]
          exact found.2
        · rw [address]
          simp only [dnsCacheAdd, cache]
          rfl
  next missing =>
    left
    exact ⟨rfl, cache⟩

/-- What responses and cache entries leave alone, a query changes by sending alone. -/
theorem dnsQuery_frame {α : Type} (field : Dns → α)
    (received : ∀ s d, field (dnsReceive s d) = field s)
    (added : ∀ s hostname ip ttl, field (dnsCacheAdd s hostname ip ttl) = field s)
    (s : Dns) (hostname : List UInt8) (sending : List Datagram) (polls : List (List Datagram)) :
    field (dnsQuery s hostname sending polls).state = field (dnsSend
      { s with id := (s.id + 1) % 65536, resultReady := false, resultIp := 0 }
      (dnsQueryPacket s.id hostname)) := by
  unfold dnsQuery
  dsimp only
  rw [dnsWait_outstanding _ rfl]
  split
  · rw [added, dnsReceiveAll_frame _ _ field received]
  · rw [dnsReceiveAll_frame _ _ field received]

/-! Runs. -/

inductive DnsEvent where
  | init
  | setServer (serverIp : Nat)
  | receive (d : Datagram)
  | resolve (hostname : Option (List UInt8)) (ip : Nat) (sending : List Datagram)
      (polls : List (List Datagram))

/-- The resolver and the queries it has sent. -/
structure DnsRun where
  dns : Dns
  queries : List DnsAsked

def dnsNext (s : Dns) : DnsEvent → Dns
  | .init => dnsInit s
  | .setServer serverIp => dnsSetServer s serverIp
  | .receive d => dnsReceive s d
  | .resolve hostname ip sending polls => (dnsResolve s hostname ip sending polls).state

/-- The query the event sends: there is none for a name in the cache. -/
def DnsEvent.asked (s : Dns) : DnsEvent → Option DnsAsked
  | .resolve (some hostname) ip sending polls =>
      if ip ≠ 0 ∧ dnsCacheLookup s hostname = none ∧ s.server ≠ 0 then
        some ⟨hostname, dnsQueryPacket s.id hostname, dnsOutstanding sending polls⟩
      else none
  | _ => none

def dnsStep (r : DnsRun) (event : DnsEvent) : DnsRun :=
  ⟨dnsNext r.dns event, r.queries ++ (event.asked r.dns).toList⟩

/-- The query sent fits its buffer, and where the last response with an address that arrives
while it is outstanding has a nonzero one, that response carries the query's id and the name
fits a cache entry. -/
def DnsMatched (r : DnsRun) (event : DnsEvent) : Prop :=
  ∀ q, event.asked r.dns = some q →
    q.packet.length ≤ dnsPacketSize ∧
      ∀ d ip, dnsTaken q.handled = some (d, ip) → ip ≠ 0 →
        dnsMessageId d.data = r.dns.id ∧ q.hostname.length < dnsMaxNameLen

structure DnsSound (r : DnsRun) (event : DnsEvent) : Prop where
  sends : ∀ q, event.asked r.dns = some q →
    (dnsStep r event).dns.sent = (dnsSend r.dns q.packet).sent
  returns : ∀ hostname ip sending polls, event = .resolve (some hostname) ip sending polls →
    (dnsResolve r.dns (some hostname) ip sending polls).code = 0 →
      ∃ address, (dnsResolve r.dns (some hostname) ip sending polls).stored = some address ∧
        DnsAnswered (dnsStep r event).queries hostname address
  caches : DnsCached (dnsStep r event).dns (dnsStep r event).queries

structure DnsKept (r : DnsRun) : Prop where
  cached : DnsCached r.dns r.queries
  id_lt : r.dns.id < 65536

/-- A call that sends no query returns what the cache holds, and changes nothing. -/
theorem dnsResolve_unasked {s : Dns} {hostname : List UInt8} {ip : Nat} {sending : List Datagram}
    {polls : List (List Datagram)}
    (unasked : (DnsEvent.resolve (some hostname) ip sending polls).asked s = none) :
    (dnsResolve s (some hostname) ip sending polls).state = s ∧
      ((dnsResolve s (some hostname) ip sending polls).code = 0 →
        ∃ address, (dnsResolve s (some hostname) ip sending polls).stored = some address ∧
          dnsCacheLookup s hostname = some address) := by
  rw [DnsEvent.asked] at unasked
  rw [dnsResolve]
  split
  next null => exact ⟨rfl, fun success => absurd (show (-1 : Int) = 0 from success) (by decide)⟩
  next given =>
    cases found : dnsCacheLookup s hostname with
    | some cached => exact ⟨rfl, fun _ => ⟨cached, rfl, rfl⟩⟩
    | none =>
        dsimp only
        split
        next noServer => exact ⟨rfl, fun success => absurd (show (-1 : Int) = 0 from success) (by decide)⟩
        next server =>
          rw [if_pos ⟨given, found, server⟩] at unasked
          cases unasked

theorem dnsResolve_asked {s : Dns} {hostname : List UInt8} {ip : Nat} {sending : List Datagram}
    {polls : List (List Datagram)} {q : DnsAsked}
    (asked : (DnsEvent.resolve (some hostname) ip sending polls).asked s = some q) :
    q = ⟨hostname, dnsQueryPacket s.id hostname, dnsOutstanding sending polls⟩ ∧
      dnsResolve s (some hostname) ip sending polls = dnsQuery s hostname sending polls := by
  rw [DnsEvent.asked] at asked
  split at asked
  next sends =>
    obtain ⟨given, missing, server⟩ := sends
    rw [dnsResolve, if_neg given, missing]
    exact ⟨(Option.some.inj asked).symm, if_neg server⟩
  next => cases asked

/-- One matched query: what it returns and caches is an address it was given. -/
theorem dnsQuery_sound {r : DnsRun} (kept : DnsKept r) {hostname : List UInt8}
    {sending : List Datagram} {polls : List (List Datagram)}
    (matched : ∀ d ip, dnsTaken (dnsOutstanding sending polls) = some (d, ip) → ip ≠ 0 →
      dnsMessageId d.data = r.dns.id ∧ hostname.length < dnsMaxNameLen) :
    let q : DnsAsked :=
      ⟨hostname, dnsQueryPacket r.dns.id hostname, dnsOutstanding sending polls⟩
    DnsCached (dnsQuery r.dns hostname sending polls).state (r.queries ++ [q]) ∧
      ((dnsQuery r.dns hostname sending polls).code = 0 →
        ∃ address, (dnsQuery r.dns hostname sending polls).stored = some address ∧
          DnsAnswered (r.queries ++ [q]) hostname address) := by
  intro q
  obtain ⟨failed, cache⟩ | ⟨d, address, taken, nonzero, stored, cache⟩ :=
    dnsQuery_cases r.dns hostname sending polls
  · refine ⟨kept.cached.more.congr cache, fun success => ?_⟩
    rw [failed] at success
    exact absurd success (by decide)
  · obtain ⟨same, fits⟩ := matched d address taken nonzero
    have answered : DnsAnswered (r.queries ++ [q]) hostname address := by
      refine ⟨q, List.mem_append_right _ (List.mem_singleton_self q), rfl, d, taken, ?_⟩
      rw [same]
      exact (dnsQueryPacket_id kept.id_lt hostname).symm
    exact ⟨(kept.cached.more.add fits answered).congr cache, fun _ => ⟨address, stored, answered⟩⟩

/-- The same of any call with a name. -/
theorem dnsResolve_sound {r : DnsRun} (kept : DnsKept r) {hostname : List UInt8} {ip : Nat}
    {sending : List Datagram} {polls : List (List Datagram)}
    (matched : DnsMatched r (.resolve (some hostname) ip sending polls)) :
    let after := dnsStep r (.resolve (some hostname) ip sending polls)
    DnsCached after.dns after.queries ∧
      ((dnsResolve r.dns (some hostname) ip sending polls).code = 0 →
        ∃ address, (dnsResolve r.dns (some hostname) ip sending polls).stored = some address ∧
          DnsAnswered after.queries hostname address) := by
  intro after
  cases asked : (DnsEvent.resolve (some hostname) ip sending polls).asked r.dns with
  | none =>
      obtain ⟨same, found⟩ := dnsResolve_unasked asked
      refine ⟨kept.cached.more.congr (congrArg Dns.cache same), fun success => ?_⟩
      obtain ⟨address, stored, cached⟩ := found success
      exact ⟨address, stored, (kept.cached.lookup cached).more⟩
  | some q =>
      obtain ⟨rfl, eq⟩ := dnsResolve_asked asked
      have sound := dnsQuery_sound kept (matched _ asked).2
      rw [← eq] at sound
      have queries : after.queries = r.queries ++ [_] :=
        congrArg (fun q => r.queries ++ Option.toList q) asked
      rw [queries]
      exact sound

theorem dnsStep_cached {r : DnsRun} (kept : DnsKept r) {event : DnsEvent}
    (matched : DnsMatched r event) :
    DnsCached (dnsStep r event).dns (dnsStep r event).queries := by
  cases event with
  | init => exact fun _ valid => absurd valid Bool.false_ne_true
  | setServer serverIp => exact kept.cached.more.congr rfl
  | receive d => exact kept.cached.more.congr (dnsReceive_cache r.dns d)
  | resolve hostname ip sending polls =>
      cases hostname with
      | none => exact kept.cached.more.congr rfl
      | some hostname => exact (dnsResolve_sound kept matched).1

/-- The calls that send no query leave the packets sent and the next id alone. -/
theorem dnsNext_unasked {s : Dns} {event : DnsEvent} (unasked : event.asked s = none) :
    (dnsNext s event).sent = s.sent ∧ (dnsNext s event).id = s.id := by
  cases event with
  | init => exact ⟨rfl, rfl⟩
  | setServer serverIp => exact ⟨rfl, rfl⟩
  | receive d => exact ⟨dnsReceive_sent s d, dnsReceive_id s d⟩
  | resolve hostname ip sending polls =>
      cases hostname with
      | none => exact ⟨rfl, rfl⟩
      | some hostname =>
          have same := (dnsResolve_unasked unasked).1
          exact ⟨congrArg Dns.sent same, congrArg Dns.id same⟩

/-- A query is sent with the next id, which then moves on. -/
theorem dnsNext_asked {s : Dns} {event : DnsEvent} {q : DnsAsked}
    (asked : event.asked s = some q) :
    q.packet = dnsQueryPacket s.id q.hostname ∧
      (dnsNext s event).sent = (dnsSend s q.packet).sent ∧
      (dnsNext s event).id = (s.id + 1) % 65536 := by
  cases event with
  | init => cases asked
  | setServer serverIp => cases asked
  | receive d => cases asked
  | resolve hostname ip sending polls =>
      cases hostname with
      | none => cases asked
      | some hostname =>
          obtain ⟨rfl, eq⟩ := dnsResolve_asked asked
          rw [dnsNext, eq]
          exact ⟨rfl, dnsQuery_frame Dns.sent dnsReceive_sent (fun _ _ _ _ => rfl) s _ _ _,
            dnsQuery_frame Dns.id dnsReceive_id (fun _ _ _ _ => rfl) s _ _ _⟩

theorem dnsStep_id_lt {r : DnsRun} (kept : DnsKept r) (event : DnsEvent) :
    (dnsStep r event).dns.id < 65536 := by
  cases asked : event.asked r.dns with
  | none =>
      rw [dnsStep, (dnsNext_unasked asked).2]
      exact kept.id_lt
  | some q =>
      rw [dnsStep, (dnsNext_asked asked).2.2]
      exact Nat.mod_lt _ (by decide)

theorem dnsStep_sound {r : DnsRun} (kept : DnsKept r) {event : DnsEvent}
    (matched : DnsMatched r event) : DnsKept (dnsStep r event) ∧ DnsSound r event := by
  have cached := dnsStep_cached kept matched
  refine ⟨⟨cached, dnsStep_id_lt kept event⟩, ?_, ?_, cached⟩
  · intro q asked
    exact (dnsNext_asked asked).2.1
  · rintro hostname ip sending polls rfl
    exact (dnsResolve_sound kept matched).2

def dnsBoot : DnsRun := ⟨.boot, []⟩

theorem dnsBoot_kept : DnsKept dnsBoot :=
  ⟨fun _ valid => absurd valid Bool.false_ne_true, by decide⟩

/-- In a run whose queries are all matched, every address returned or cached is one a query
for its name was given. -/
theorem dns_run (events : List DnsEvent) (matched : Along dnsStep DnsMatched dnsBoot events) :
    Along dnsStep DnsSound dnsBoot events :=
  matched.sound DnsKept (fun _ _ kept met => dnsStep_sound kept met) dnsBoot_kept

/-- The response to a question for `hostname`, with one record, of the address 10.0.0.`last`. -/
def dnsResponse (id : Nat) (hostname : List UInt8) (last : UInt8) : Datagram :=
  let header := be16 id ++ be16 0x8180 ++ be16 1 ++ be16 1 ++ be16 0 ++ be16 0
  let question := dnsEncodeName hostname ++ be16 dnsTypeA ++ be16 dnsClassIn
  let record : List UInt8 := [0xC0, 12, 0, 1, 0, 1, 0, 0, 0, 60, 0, 4, 10, 0, 0, last]
  let bytes := header ++ question ++ record
  ⟨ofList bytes, bytes.length⟩

example : dnsReply (dnsResponse 7 [97] 9) = .resolved 0x0A000009 := by decide

theorem dns_run_boot : Along dnsStep DnsSound dnsBoot
    [.init, .resolve (some [97]) 4096 [] [[], [dnsResponse 1 [97] 9]],
      .receive (dnsResponse 1 [97] 7), .resolve (some [97]) 4096 [] [],
      .resolve (some [98]) 4096 [] [[dnsResponse 2 [98] 3]]] := by
  refine dns_run _ ⟨?_, ?_, ?_, ?_, ?_, trivial⟩
  · intro q asked
    cases asked
  · intro q asked
    obtain rfl := Option.some.inj asked
    refine ⟨by decide, fun d ip taken _ => ?_⟩
    obtain ⟨rfl, -⟩ := Prod.mk.inj (Option.some.inj taken)
    exact ⟨by decide, by decide⟩
  · intro q asked
    cases asked
  · intro q asked
    cases asked
  · intro q asked
    obtain rfl := Option.some.inj asked
    refine ⟨by decide, fun d ip taken _ => ?_⟩
    obtain ⟨rfl, -⟩ := Prod.mk.inj (Option.some.inj taken)
    exact ⟨by decide, by decide⟩

/-- The response to the query for one name comes late, while the query for another is
outstanding: its address is returned and cached for the other name. -/
theorem dns_answer_late :
    let events : List DnsEvent := [.init, .resolve (some [97]) 4096 [] []]
    let r := events.foldl dnsStep dnsBoot
    let late := dnsResponse 1 [97] 9
    let result := dnsResolve r.dns (some [98]) 4096 [] [[late]]
    dnsMessageId late.data = 1 ∧ r.dns.id = 2 ∧ result.code = 0 ∧
      result.stored = some 0x0A000009 ∧
      dnsCacheLookup result.state [98] = some 0x0A000009 ∧
      ¬ Along dnsStep DnsSound dnsBoot (events ++ [.resolve (some [98]) 4096 [] [[late]]]) := by
  intro events r late result
  refine ⟨by decide, by decide, by decide, by decide, by decide, fun sound => ?_⟩
  obtain ⟨address, -, q, member, host, d, taken, same⟩ :=
    sound.last.returns [98] 4096 [] [[late]] rfl (by decide)
  have asked : q ∈ [⟨[97], dnsQueryPacket 1 [97], []⟩, ⟨[98], dnsQueryPacket 2 [98], [late]⟩] :=
    member
  obtain rfl | rfl := List.mem_pair.mp asked
  · exact absurd host (by decide)
  · obtain rfl := List.mem_singleton.mp (dnsTaken_mem taken).1
    exact absurd same (by decide)

end ZurichOS
