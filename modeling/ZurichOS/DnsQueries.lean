import ZurichOS.Dns

/-!
The query of `dns_resolve`, read back by the rules for names, and the cache after it.
-/

namespace ZurichOS

open Words ByteReader

/-- A name on the wire: labels of 1 to 63 bytes behind their lengths, up to a zero byte. -/
inductive QName : List UInt8 → List (List UInt8) → Prop where
  | root : QName [0] []
  | label {label rest : List UInt8} {labels : List (List UInt8)} (some : 1 ≤ label.length)
      (short : label.length ≤ 63) (more : QName rest labels) :
      QName (.ofNat label.length :: label ++ rest) (label :: labels)

/-- The parts of a hostname between its dots, where `label` holds the characters since the last
one.  A dot at the end has no part behind it. -/
def hostLabels (label : List UInt8) : List UInt8 → List (List UInt8)
  | [] => if label = [] then [] else [label]
  | char :: rest =>
      if char = 46 then label :: hostLabels [] rest else hostLabels (label ++ [char]) rest

/-- The hostname less one dot at its end. -/
def withoutDot (hostname : List UInt8) : List UInt8 :=
  if hostname.getLast? = some 46 then hostname.dropLast else hostname

/-- What a resolution sends and caches. -/
structure QueryTrue (s : Dns) (hostname : List UInt8) (resolved : DnsResolved) : Prop where
  sent : resolved.state.sent = (dnsSend s (dnsQueryPacket s.id hostname)).sent
  fits : (dnsQueryPacket s.id hostname).length ≤ dnsPacketSize
  name : ∃ labels, QName (dnsEncodeName hostname) labels ∧
    [46].intercalate labels = withoutDot hostname
  cached : ∀ address, resolved.stored = some address →
    dnsCacheLookup resolved.state hostname = some address

/-- Every part of the hostname is a label, and the hostname fits an entry of the cache. -/
def HostnameValid (hostname : List UInt8) : Prop :=
  hostname.length < dnsMaxNameLen ∧
    ∀ label ∈ hostLabels [] hostname, 1 ≤ label.length ∧ label.length ≤ 63

theorem dnsEncodeLabels_eq (label name : List UInt8) :
    dnsEncodeLabels label name = (hostLabels label name).flatMap dnsEncodeLabel := by
  induction name generalizing label with
  | nil =>
      rw [dnsEncodeLabels, hostLabels]
      split
      · rfl
      · rw [List.flatMap_singleton]
  | cons char rest ih =>
      rw [dnsEncodeLabels, hostLabels]
      split
      · rw [ih, List.flatMap_cons]
      · exact ih _

theorem hostLabels_ne_nil {label name : List UInt8} (some : label ++ name ≠ []) :
    hostLabels label name ≠ [] := by
  induction name generalizing label with
  | nil =>
      rw [List.append_nil] at some
      rw [hostLabels, if_neg some]
      exact fun none => by cases none
  | cons char rest ih =>
      rw [hostLabels]
      split
      · exact fun none => by cases none
      · refine ih ?_
        simp

theorem withoutDot_append (front : List UInt8) {name : List UInt8} (some : name ≠ []) :
    withoutDot (front ++ name) = front ++ withoutDot name := by
  rw [withoutDot, withoutDot, List.getLast?_append_of_ne_nil _ some,
    List.dropLast_append_of_ne_nil some]
  split <;> rfl

theorem withoutDot_plain {label : List UInt8} (plain : 46 ∉ label) : withoutDot label = label := by
  refine if_neg fun last => plain ?_
  exact List.mem_of_getLast? last

theorem hostLabels_join {label : List UInt8} (plain : 46 ∉ label) (name : List UInt8) :
    [46].intercalate (hostLabels label name) = withoutDot (label ++ name) := by
  induction name generalizing label with
  | nil =>
      rw [hostLabels, List.append_nil, withoutDot_plain plain]
      split
      · rename_i empty
        rw [empty, List.intercalate_nil]
      · exact List.intercalate_singleton
  | cons char rest ih =>
      rw [hostLabels]
      by_cases dot : char = 46
      · rw [if_pos dot, dot]
        by_cases last : rest = []
        · subst last
          rw [hostLabels, if_pos rfl, List.intercalate_singleton, withoutDot,
            List.getLast?_concat, if_pos rfl, List.dropLast_concat]
        · have more := @ih [] List.not_mem_nil
          have whole := withoutDot_append (label ++ [46]) last
          rw [List.append_assoc, List.append_assoc, List.singleton_append] at whole
          rw [List.intercalate_cons_of_ne_nil (@hostLabels_ne_nil [] rest last), more, List.nil_append,
            whole, List.append_assoc]
      · rw [if_neg dot, ih, ← List.append_cons]
        simp only [List.mem_append, List.mem_singleton, not_or]
        exact ⟨plain, fun is => dot is.symm⟩

theorem hostLabels_plain {label : List UInt8} (plain : 46 ∉ label) (name : List UInt8) :
    ∀ part ∈ hostLabels label name, 46 ∉ part := by
  induction name generalizing label with
  | nil =>
      intro part member
      rw [hostLabels] at member
      split at member
      · cases member
      · obtain rfl := List.mem_singleton.mp member
        exact plain
  | cons char rest ih =>
      rw [hostLabels]
      split
      · intro part member
        rcases List.mem_cons.mp member with rfl | later
        · exact plain
        · exact ih (List.not_mem_nil) part later
      · rename_i other
        refine ih ?_
        simp only [List.mem_append, List.mem_singleton, not_or]
        exact ⟨plain, fun is => other is.symm⟩

theorem qname_encode {labels : List (List UInt8)}
    (valid : ∀ label ∈ labels, 1 ≤ label.length ∧ label.length ≤ 63) :
    QName (labels.flatMap dnsEncodeLabel ++ [0]) labels := by
  induction labels with
  | nil => exact .root
  | cons label rest ih =>
      obtain ⟨⟨some, short⟩, later⟩ := List.forall_mem_cons.mp valid
      rw [List.flatMap_cons, List.append_assoc]
      exact .label some short (ih later)

theorem intercalate_flatMap (label : List UInt8) (rest : List (List UInt8)) :
    [46].intercalate (label :: rest) = label ++ rest.flatMap fun next => 46 :: next := by
  induction rest generalizing label with
  | nil => rw [List.intercalate_singleton, List.flatMap_nil, List.append_nil]
  | cons next rest ih =>
      rw [List.intercalate_cons_cons, ih, List.flatMap_cons, List.append_assoc]
      rfl

/-- Behind a part of the same length the rest joins alike. -/
theorem intercalate_rest {label : List UInt8} {first second : List (List UInt8)}
    (same : [46].intercalate (label :: first) = [46].intercalate (label :: second)) :
    [46].intercalate first = [46].intercalate second := by
  rw [intercalate_flatMap, intercalate_flatMap] at same
  have tails := List.append_cancel_left same
  cases first with
  | nil =>
      cases second with
      | nil => rfl
      | cons next rest => cases tails
  | cons head tail =>
      cases second with
      | nil => cases tails
      | cons next rest =>
          rw [intercalate_flatMap, intercalate_flatMap]
          exact List.cons.inj tails |>.2

/-- A label on the wire is shorter than the part it starts if the two lengths differ, and then a
dot or the end follows where the part goes on. -/
theorem label_length_eq {found part : List UInt8} {rest parts : List (List UInt8)}
    (plain : 46 ∉ part) (starts : found <+: part)
    (same : [46].intercalate (found :: rest) = [46].intercalate (part :: parts)) :
    found.length = part.length := by
  by_contra differ
  have shorter := starts.length_le
  have at_end := congrArg (fun joined : List UInt8 => joined[found.length]?) same
  rw [intercalate_flatMap, intercalate_flatMap, List.getElem?_append_right (Nat.le_refl _),
    Nat.sub_self, List.getElem?_append_left (by omega)] at at_end
  have inside : found.length < part.length := by omega
  rw [List.getElem?_eq_getElem inside] at at_end
  cases rest with
  | nil => cases at_end
  | cons next rest =>
      have dot := Option.some.inj at_end
      exact plain (dot ▸ List.getElem_mem inside)

/-- Parts that are read back as labels with the same name are these labels. -/
theorem qname_valid {parts labels : List (List UInt8)} (plain : ∀ part ∈ parts, 46 ∉ part)
    (read : QName (parts.flatMap dnsEncodeLabel ++ [0]) labels)
    (same : [46].intercalate labels = [46].intercalate parts) :
    ∀ part ∈ parts, 1 ≤ part.length ∧ part.length ≤ 63 := by
  induction parts generalizing labels with
  | nil =>
      intro part member
      cases member
  | cons part parts ih =>
      rw [List.flatMap_cons, List.append_assoc] at read
      generalize isRest : parts.flatMap dnsEncodeLabel ++ [0] = rest at read
      generalize isBytes : dnsEncodeLabel part ++ rest = bytes at read
      cases read with
      | root =>
          have tail : part ++ rest = [] := (List.cons.inj isBytes).2
          rw [← isRest] at tail
          simp at tail
      | @label found later labels some short more =>
          obtain ⟨lengths, bytes⟩ := List.cons.inj isBytes
          have bytes : part ++ rest = found ++ later := bytes
          have low : part.length % 256 = found.length := by
            have same := congrArg UInt8.toNat lengths
            rw [UInt8.toNat_ofNat', UInt8.toNat_ofNat'] at same
            omega
          have starts : found <+: part :=
            List.prefix_of_prefix_length_le (bytes ▸ List.prefix_append found later)
              (List.prefix_append part rest) (by omega)
          have length := label_length_eq (plain part (List.mem_cons_self ..)) starts same
          obtain ⟨isPart, isLater⟩ := List.append_inj bytes length.symm
          subst isPart isLater
          rw [← isRest] at more
          refine List.forall_mem_cons.mpr ⟨⟨some, short⟩, ?_⟩
          exact ih (fun next member => plain next (List.mem_cons_of_mem _ member)) more
            (intercalate_rest same)

/-! The cache after an entry is added for a name that had none. -/

section Cached

variable {s : Dns} {hostname : List UInt8}

theorem dnsCacheLookup_none (missing : dnsCacheLookup s hostname = none) {i : Nat}
    (slot : i < dnsCacheSize) : ¬ ((s.cache i).valid ∧ (s.cache i).name = hostname) := by
  have none := List.find?_eq_none.mp (Option.map_eq_none_iff.mp missing) i
    (List.mem_range.mpr slot)
  simpa using none

theorem dnsCacheLookup_congr {other : Dns} (same : s.cache = other.cache) :
    dnsCacheLookup s hostname = dnsCacheLookup other hostname := by
  rw [dnsCacheLookup, dnsCacheLookup, dnsCacheSlot, dnsCacheSlot, same]

/-- The entry added is found again exactly if its name is whole. -/
theorem dnsCacheLookup_add (missing : dnsCacheLookup s hostname = none) (ip ttl : Nat) :
    dnsCacheLookup (dnsCacheAdd s hostname ip ttl) hostname =
      if hostname.length < dnsMaxNameLen then some ip else none := by
  generalize isSlot : ((List.range dnsCacheSize).find? fun i => !(s.cache i).valid).getD 0 = slot
  have within : slot < dnsCacheSize := by
    rw [← isSlot]
    cases found : (List.range dnsCacheSize).find? fun i => !(s.cache i).valid with
    | none => exact Nat.zero_lt_succ _
    | some i => exact List.mem_range.mp (List.mem_of_find?_eq_some found)
  have cache (i : Nat) : (dnsCacheAdd s hostname ip ttl).cache i =
      if i = slot then ⟨hostname.take (dnsMaxNameLen - 1), ip, ttl, true⟩ else s.cache i := by
    rw [dnsCacheAdd, isSlot]
  have only {i : Nat} (inside : i < dnsCacheSize)
      (hit : ((dnsCacheAdd s hostname ip ttl).cache i).valid ∧
        ((dnsCacheAdd s hostname ip ttl).cache i).name = hostname) :
      i = slot ∧ hostname.take (dnsMaxNameLen - 1) = hostname := by
    rw [cache] at hit
    by_cases isNew : i = slot
    · rw [if_pos isNew] at hit
      exact ⟨isNew, hit.2⟩
    · rw [if_neg isNew] at hit
      exact absurd hit (dnsCacheLookup_none missing inside)
  rw [dnsCacheLookup, dnsCacheSlot]
  cases found : (List.range dnsCacheSize).find? fun i =>
      ((dnsCacheAdd s hostname ip ttl).cache i).valid ∧
        ((dnsCacheAdd s hostname ip ttl).cache i).name = hostname with
  | none =>
      rw [Option.map_none]
      by_cases fits : hostname.length < dnsMaxNameLen
      · have absent := List.find?_eq_none.mp found slot (List.mem_range.mpr within)
        rw [cache, if_pos rfl] at absent
        have whole := List.take_of_length_le (Nat.le_of_lt_succ fits)
        exact absurd (decide_eq_true ⟨rfl, whole⟩) absent
      · rw [if_neg fits]
  | some i =>
      have hit := List.find?_some found
      obtain ⟨rfl, whole⟩ := only (List.mem_range.mp (List.mem_of_find?_eq_some found))
        (of_decide_eq_true hit)
      have fits : hostname.length < dnsMaxNameLen := by
        have length : min 255 hostname.length = hostname.length := by
          rw [← List.length_take]
          exact congrArg List.length whole
        change hostname.length < 256
        omega
      rw [Option.map_some, if_pos fits, cache, if_pos rfl]

end Cached

theorem dnsQuery_stored {s : Dns} {hostname : List UInt8} {sending : List Datagram}
    {polls : List (List Datagram)} {address : Nat}
    (stored : (dnsQuery s hostname sending polls).stored = some address) :
    (dnsQuery s hostname sending polls).state.cache =
      (dnsCacheAdd s hostname address 300).cache := by
  rcases dnsQuery_cases s hostname sending polls with ⟨failed, -⟩ | ⟨d, ip, -, -, isStored, added⟩
  · rw [dnsQuery] at stored failed
    split at stored
    · rename_i found
      rw [if_pos found] at failed
      exact absurd (show (0 : Int) = -1 from failed) (by decide)
    · cases stored
  · rw [added, Option.some.inj (isStored.symm.trans stored)]

/-- An address that arrives while the query is sent is stored. -/
theorem dnsQuery_response (s : Dns) (hostname : List UInt8) {d : Datagram} {ip : Nat}
    (resolved : dnsReply d = .resolved ip) (some : ip ≠ 0) :
    (dnsQuery s hostname [d] []).stored = Option.some ip := by
  have received (s : Dns) :
      dnsReceiveAll s [d] = { s with resultIp := ip, resultReady := true } := by
    rw [dnsReceiveAll, List.foldl_cons, List.foldl_nil, dnsReceive, resolved]
  rw [dnsQuery, List.take_nil, dnsWait, received]
  exact congrArg DnsResolved.stored (if_pos ⟨rfl, some⟩)

/-- For a hostname that is not cached the query is true, whatever arrives, exactly if the hostname
is valid. -/
theorem dns_query_iff (s : Dns) (hostname : List UInt8) (ip : Nat) (pointer : ip ≠ 0)
    (missing : dnsCacheLookup s hostname = none) (server : s.server ≠ 0) :
    (∀ sending polls, QueryTrue s hostname (dnsResolve s (some hostname) ip sending polls)) ↔
      HostnameValid hostname := by
  have sends (sending : List Datagram) (polls : List (List Datagram)) :
      dnsResolve s (some hostname) ip sending polls = dnsQuery s hostname sending polls := by
    rw [dnsResolve, if_neg pointer, missing]
    exact if_neg server
  have lookup {sending : List Datagram} {polls : List (List Datagram)} {address : Nat}
      (stored : (dnsQuery s hostname sending polls).stored = some address) :
      dnsCacheLookup (dnsQuery s hostname sending polls).state hostname =
        if hostname.length < dnsMaxNameLen then some address else none := by
    rw [dnsCacheLookup_congr (dnsQuery_stored stored), dnsCacheLookup_add missing]
  have join := hostLabels_join List.not_mem_nil hostname
  rw [List.nil_append] at join
  simp only [sends]
  constructor
  · intro sound
    constructor
    · -- Any response with an address is cached, and found only if the name is whole.
      have stored := dnsQuery_response s hostname
        (show dnsReply (dnsResponse 1 [97] 9) = .resolved 0x0A000009 by decide) (by decide)
      have found := lookup stored
      rw [(sound _ _).cached _ stored] at found
      by_contra long
      rw [if_neg long] at found
      cases found
    · obtain ⟨labels, read, same⟩ := (sound [] []).name
      rw [dnsEncodeName, dnsEncodeLabels_eq] at read
      exact qname_valid (hostLabels_plain List.not_mem_nil hostname) read (same.trans join.symm)
  · rintro ⟨fits, valid⟩ sending polls
    refine ⟨?_, dnsQueryPacket_length fits, ⟨_, ?_, join⟩, fun address stored => ?_⟩
    · exact dnsQuery_frame Dns.sent dnsReceive_sent (fun _ _ _ _ => rfl) s hostname sending polls
    · rw [dnsEncodeName, dnsEncodeLabels_eq]
      exact qname_encode valid
    · rw [lookup stored, if_pos fits]

/-- For "a..b" the zero byte of the empty part ends the name too early. -/
theorem dns_query_cut : ¬ QueryTrue (dnsInit .boot) [97, 46, 46, 98]
    (dnsResolve (dnsInit .boot) (some [97, 46, 46, 98]) 4096 [] []) := by
  intro sound
  obtain ⟨labels, read, same⟩ := sound.name
  rw [dnsEncodeName, dnsEncodeLabels_eq] at read
  have valid := qname_valid (hostLabels_plain List.not_mem_nil _) read
    (same.trans (hostLabels_join List.not_mem_nil [97, 46, 46, 98]).symm)
  exact absurd (valid [] (by decide)).1 (by decide)

theorem dns_query_iff_boot :
    (∀ sending polls, QueryTrue (dnsInit .boot) [97, 46]
      (dnsResolve (dnsInit .boot) (some [97, 46]) 4096 sending polls)) ↔ HostnameValid [97, 46] :=
  dns_query_iff (dnsInit .boot) [97, 46] 4096 (by decide) (by decide) (by decide)

end ZurichOS
