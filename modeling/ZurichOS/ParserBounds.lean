import ZurichOS.Dhcp
import ZurichOS.Dns

/-!
How far `dns_receive` and `dhcp_receive` read.  The answers of a response stay inside the datagram
whatever they claim; the name of the question and the options of a lease are walked without a look
at its end.
-/

namespace ZurichOS

open ByteReader

/-- The datagram is a response without an error, and has answers. -/
structure DnsAnswering (packet : Bytes) (len : Nat) : Prop where
  header : dnsHeaderSize ≤ len
  response : hasFlag ((word16 2).value packet) dnsFlagQr
  success : ¬ hasFlag ((word16 2).value packet) dnsFlagRcode
  answers : (word16 6).value packet ≠ 0

/-- The name from `ptr` on ends in a zero byte inside the datagram, or in a pointer with a byte
behind it. -/
inductive QuestionEnds (packet : Bytes) (len : Nat) : Nat → Prop where
  | root {ptr : Nat} (inside : ptr < len) (zero : (packet ptr).toNat = 0) :
      QuestionEnds packet len ptr
  | pointer {ptr : Nat} (inside : ptr + 2 < len) (compressed : isPointer (packet ptr).toNat) :
      QuestionEnds packet len ptr
  | label {ptr : Nat} (inside : ptr < len) (some : (packet ptr).toNat ≠ 0)
      (plain : ¬ isPointer (packet ptr).toNat)
      (rest : QuestionEnds packet len (ptr + (packet ptr).toNat + 1)) :
      QuestionEnds packet len ptr

structure DhcpReplying (packet : Bytes) (len : Nat) : Prop where
  header : dhcpOptions ≤ len
  op : (packet 0).toNat = 2
  magic : (word32 236).value packet = dhcpMagicCookie

/-- How many bytes of its value are read, whatever length the option claims. -/
def dhcpValueBytes (type : Nat) : Nat :=
  if type = dhcpOptMsgType then 1
  else if type ∈ [dhcpOptServerId, dhcpOptSubnetMask, dhcpOptRouter, dhcpOptDns, dhcpOptLeaseTime]
    then 4
  else 0

/-- The options from `opt` on are inside the datagram, up to the end marker or the byte behind
those of a full header. -/
inductive OptionsInside (packet : Bytes) (len : Nat) : Nat → Prop where
  | stop {opt : Nat} (inside : opt < len)
      (ends : (packet opt).toNat = dhcpOptEnd ∨ dhcpOptions + dhcpOptionsLen ≤ opt) :
      OptionsInside packet len opt
  | pad {opt : Nat} (inside : opt < len) (pad : (packet opt).toNat = dhcpOptPad)
      (rest : OptionsInside packet len (opt + 1)) : OptionsInside packet len opt
  | option {opt : Nat} (inside : opt + 1 < len) (plain : (packet opt).toNat ≠ dhcpOptPad)
      (value : dhcpValueBytes (packet opt).toNat = 0 ∨
        opt + 2 + dhcpValueBytes (packet opt).toNat ≤ len)
      (rest : OptionsInside packet len (opt + 2 + (packet (opt + 1)).toNat)) :
      OptionsInside packet len opt

variable {packet : Bytes} {len turns ptr opt : Nat}

theorem QuestionEnds.inside (ends : QuestionEnds packet len ptr) : ptr < len := by
  cases ends with
  | root inside _ => exact inside
  | pointer inside _ => omega
  | label inside _ _ _ => exact inside

theorem OptionsInside.inside (options : OptionsInside packet len opt) : opt < len := by
  cases options with
  | stop inside _ => exact inside
  | pad inside _ _ => exact inside
  | option inside _ _ _ => omega

theorem dnsSkipQuestion_within (len turns ptr : Nat) :
    (dnsSkipQuestion len turns ptr).Within packet len := by
  induction turns generalizing ptr with
  | zero => exact within_pure _ _ _
  | succ turns ih =>
      rw [dnsSkipQuestion, within_ite]
      split
      · rename_i inside
        rw [within_bind, within_byte]
        refine ⟨inside, ?_⟩
        rw [within_ite]
        split
        · exact within_pure _ _ _
        · rw [within_ite]
          split
          · exact within_pure _ _ _
          · exact ih _
      · exact within_pure _ _ _

theorem dnsSkipQuestion_lt_iff (enough : len ≤ ptr + turns) :
    (dnsSkipQuestion len turns ptr).value packet < len ↔ QuestionEnds packet len ptr := by
  induction turns generalizing ptr with
  | zero =>
      refine iff_of_false ?_ fun ends => ?_
      · change ¬ ptr < len
        omega
      · have inside := ends.inside
        omega
  | succ turns ih =>
      rw [dnsSkipQuestion]
      by_cases inside : ptr < len
      · rw [if_pos inside, value_bind, value_byte]
        by_cases zero : (packet ptr).toNat = 0
        · rw [if_pos zero]
          exact iff_of_true inside (.root inside zero)
        · rw [if_neg zero]
          by_cases compressed : isPointer (packet ptr).toNat
          · rw [if_pos compressed]
            constructor
            · intro room
              exact .pointer room compressed
            · intro ends
              cases ends with
              | root _ is => exact absurd is zero
              | pointer room _ => exact room
              | label _ _ plain _ => exact absurd compressed plain
          · rw [if_neg compressed, ih (by omega)]
            constructor
            · exact .label inside zero compressed
            · intro ends
              cases ends with
              | root _ is => exact absurd is zero
              | pointer _ is => exact absurd is compressed
              | label _ _ _ rest => exact rest
      · rw [if_neg inside]
        exact iff_of_false inside fun ends => inside ends.inside

theorem dnsSkipLabels_within (len turns ptr : Nat) :
    (dnsSkipLabels len turns ptr).Within packet len := by
  induction turns generalizing ptr with
  | zero => exact within_pure _ _ _
  | succ turns ih =>
      rw [dnsSkipLabels, within_ite]
      split
      · rename_i inside
        rw [within_bind, within_byte]
        refine ⟨inside, ?_⟩
        rw [within_ite]
        split
        · exact within_pure _ _ _
        · exact ih _
      · exact within_pure _ _ _

theorem dnsSkipName_within (inside : ptr < len) : (dnsSkipName len ptr).Within packet len := by
  rw [dnsSkipName, within_bind, within_byte]
  refine ⟨inside, ?_⟩
  rw [within_ite]
  split
  · exact within_pure _ _ _
  · rw [within_bind]
    exact ⟨dnsSkipLabels_within _ _ _, within_pure _ _ _⟩

/-- Every record is compared with the end before it is read. -/
theorem dnsAnswers_within (len count ptr : Nat) :
    (dnsAnswers len count ptr).Within packet len := by
  induction count generalizing ptr with
  | zero => exact within_pure _ _ _
  | succ count ih =>
      rw [dnsAnswers, within_ite]
      split
      · rename_i inside
        rw [within_bind]
        refine ⟨dnsSkipName_within inside, ?_⟩
        rw [within_ite]
        split
        · exact within_pure _ _ _
        · simp only [within_bind, within_word16]
          refine ⟨by omega, by omega, ?_⟩
          rw [within_ite]
          split
          · rename_i address
            rw [within_bind, within_word32]
            exact ⟨by omega, within_pure _ _ _⟩
          · exact ih _
      · exact within_pure _ _ _

theorem dnsParse_within_iff (packet : Bytes) (len : Nat) :
    (dnsParse len).Within packet len ↔ (DnsAnswering packet len → QuestionEnds packet len 12) := by
  rw [dnsParse, within_ite]
  by_cases short : len < dnsHeaderSize
  · rw [if_pos short]
    exact iff_of_true (within_pure _ _ _) fun answering => absurd answering.header (by omega)
  · have header : 12 ≤ len := Nat.le_of_not_lt short
    rw [if_neg short, within_bind, within_word16, and_iff_right (by omega), within_ite]
    by_cases query : ¬ hasFlag ((word16 2).value packet) dnsFlagQr
    · rw [if_pos query]
      exact iff_of_true (within_pure _ _ _) fun answering => absurd answering.response query
    · rw [if_neg query, within_ite]
      by_cases failed : hasFlag ((word16 2).value packet) dnsFlagRcode
      · rw [if_pos failed]
        exact iff_of_true (within_pure _ _ _) fun answering => absurd failed answering.success
      · rw [if_neg failed, within_bind, within_word16, and_iff_right (by omega), within_ite]
        by_cases none : (word16 6).value packet = 0
        · rw [if_pos none]
          exact iff_of_true (within_pure _ _ _) fun answering => absurd none answering.answers
        · have answering : DnsAnswering packet len := ⟨header, not_not.mp query, failed, none⟩
          rw [if_neg none, imp_iff_right answering,
            ← dnsSkipQuestion_lt_iff (show len ≤ 12 + len by omega)]
          simp only [within_bind, within_byte]
          constructor
          · rintro ⟨-, inside, -⟩
            exact inside
          · intro inside
            exact ⟨dnsSkipQuestion_within _ _ _, inside, dnsAnswers_within _ _ _⟩

theorem dhcpOption_within (type opt : Nat) (m : DhcpMessage) :
    (dhcpOption type opt m).Within packet len ↔
      dhcpValueBytes type = 0 ∨ opt + dhcpValueBytes type ≤ len := by
  have word (next : Nat → Reader DhcpMessage) (pure : ∀ value, (next value).Within packet len) :
      (word32 opt >>= next).Within packet len ↔ 4 = 0 ∨ opt + 4 ≤ len := by
    rw [within_bind, within_word32, and_iff_left (pure _)]
    omega
  rw [dhcpOption, dhcpValueBytes, within_ite]
  by_cases msgType : type = dhcpOptMsgType
  · rw [if_pos msgType, if_pos msgType, within_bind, within_byte,
      and_iff_left (within_pure _ _ _)]
    omega
  · rw [if_neg msgType, if_neg msgType]
    by_cases read : type ∈ [dhcpOptServerId, dhcpOptSubnetMask, dhcpOptRouter, dhcpOptDns,
        dhcpOptLeaseTime]
    · rw [if_pos read]
      simp only [List.mem_cons, List.not_mem_nil, or_false] at read
      rcases read with rfl | rfl | rfl | rfl | rfl
      all_goals exact word _ fun _ => within_pure _ _ _
    · rw [if_neg read]
      simp only [List.mem_cons, List.not_mem_nil, or_false, not_or] at read
      obtain ⟨serverId, subnet, router, dns, lease⟩ := read
      rw [if_neg serverId, if_neg subnet, if_neg router, if_neg dns, if_neg lease]
      exact iff_of_true (within_pure _ _ _) (.inl rfl)

theorem optionsInside_stop
    (ends : ¬ ((packet opt).toNat ≠ dhcpOptEnd ∧ opt < dhcpOptions + dhcpOptionsLen)) :
    OptionsInside packet len opt ↔ opt < len := by
  refine ⟨OptionsInside.inside, fun inside => .stop inside ?_⟩
  omega

theorem optionsInside_pad
    (more : (packet opt).toNat ≠ dhcpOptEnd ∧ opt < dhcpOptions + dhcpOptionsLen)
    (pad : (packet opt).toNat = dhcpOptPad) :
    OptionsInside packet len opt ↔ opt < len ∧ OptionsInside packet len (opt + 1) := by
  constructor
  · intro options
    refine ⟨options.inside, ?_⟩
    cases options with
    | stop _ ends => omega
    | pad _ _ rest => exact rest
    | option _ plain _ _ => exact absurd pad plain
  · rintro ⟨inside, rest⟩
    exact .pad inside pad rest

theorem optionsInside_option
    (more : (packet opt).toNat ≠ dhcpOptEnd ∧ opt < dhcpOptions + dhcpOptionsLen)
    (plain : (packet opt).toNat ≠ dhcpOptPad) :
    OptionsInside packet len opt ↔ opt + 1 < len ∧
      (dhcpValueBytes (packet opt).toNat = 0 ∨
        opt + 2 + dhcpValueBytes (packet opt).toNat ≤ len) ∧
      OptionsInside packet len (opt + 2 + (packet (opt + 1)).toNat) := by
  constructor
  · intro options
    cases options with
    | stop _ ends => omega
    | pad _ pad _ => exact absurd pad plain
    | option inside _ value rest => exact ⟨inside, value, rest⟩
  · rintro ⟨inside, value, rest⟩
    exact .option inside plain value rest

theorem dhcpParseOptions_within_iff (enough : dhcpOptions + dhcpOptionsLen ≤ opt + turns)
    (m : DhcpMessage) :
    (dhcpParseOptions (turns + 1) opt m).Within packet len ↔ OptionsInside packet len opt := by
  induction turns generalizing opt m with
  | zero =>
      have ends : ¬ ((packet opt).toNat ≠ dhcpOptEnd ∧ opt < dhcpOptions + dhcpOptionsLen) := by
        omega
      rw [dhcpParseOptions, within_bind, within_byte, value_byte, if_neg ends,
        and_iff_left (within_pure _ _ _), optionsInside_stop ends]
  | succ turns ih =>
      rw [dhcpParseOptions, within_bind, within_byte, value_byte, within_ite]
      by_cases more : (packet opt).toNat ≠ dhcpOptEnd ∧ opt < dhcpOptions + dhcpOptionsLen
      · rw [if_pos more, within_ite]
        by_cases pad : (packet opt).toNat = dhcpOptPad
        · rw [if_pos pad, ih (by omega), optionsInside_pad more pad]
        · rw [if_neg pad, within_bind, within_bind, within_byte, value_byte, dhcpOption_within,
            ih (by omega), optionsInside_option more pad]
          exact and_iff_right_of_imp fun options => by omega
      · rw [if_neg more, and_iff_left (within_pure _ _ _), optionsInside_stop more]

/-- One turn after the last option changes nothing. -/
theorem dhcpParseOptions_succ (enough : dhcpOptions + dhcpOptionsLen ≤ opt + turns)
    (m : DhcpMessage) :
    dhcpParseOptions (turns + 2) opt m = dhcpParseOptions (turns + 1) opt m := by
  induction turns generalizing opt m with
  | zero =>
      have ends (type : Nat) : ¬ (type ≠ dhcpOptEnd ∧ opt < dhcpOptions + dhcpOptionsLen) := by
        omega
      simp only [dhcpParseOptions, if_neg (ends _)]
  | succ turns ih =>
      have pad (m : DhcpMessage) : dhcpParseOptions (turns + 2) (opt + 1) m =
          dhcpParseOptions (turns + 1) (opt + 1) m := ih (by omega) m
      have option (olen : Nat) (m : DhcpMessage) :
          dhcpParseOptions (turns + 2) (opt + 2 + olen) m =
            dhcpParseOptions (turns + 1) (opt + 2 + olen) m := ih (by omega) m
      rw [dhcpParseOptions]
      conv_rhs => rw [dhcpParseOptions]
      simp only [pad, option]

theorem dhcpParse_within_iff (packet : Bytes) (len : Nat) :
    (dhcpParse len).Within packet len ↔
      (DhcpReplying packet len → OptionsInside packet len dhcpOptions) := by
  rw [dhcpParse, within_ite]
  by_cases short : len < dhcpHeaderSize - dhcpOptionsLen
  · rw [if_pos short]
    exact iff_of_true (within_pure _ _ _) fun replying =>
      absurd replying.header (Nat.not_le_of_lt short)
  · have header : 240 ≤ len := Nat.le_of_not_lt short
    rw [if_neg short, within_bind, within_byte, value_byte, and_iff_right (by omega), within_ite]
    by_cases request : (packet 0).toNat ≠ 2
    · rw [if_pos request]
      exact iff_of_true (within_pure _ _ _) fun replying => absurd replying.op request
    · rw [if_neg request, within_bind, within_word32, and_iff_right (by omega), within_ite]
      by_cases other : (word32 236).value packet ≠ dhcpMagicCookie
      · rw [if_pos other]
        exact iff_of_true (within_pure _ _ _) fun replying => absurd replying.magic other
      · have replying : DhcpReplying packet len := ⟨header, not_not.mp request, not_not.mp other⟩
        rw [if_neg other, imp_iff_right replying, within_bind,
          dhcpParseOptions_within_iff (by decide), within_bind, within_word32]
        exact and_iff_left ⟨by omega, within_pure _ _ _⟩

/-- Both loops end, and the datagram is read inside exactly if the name of its question, or the
options of its lease, are. -/
theorem parsers_within_iff (d : Datagram) :
    (∀ turns, d.len ≤ turns → ∀ ptr,
      dnsSkipQuestion d.len (turns + 1) ptr = dnsSkipQuestion d.len turns ptr ∧
        dnsSkipLabels d.len (turns + 1) ptr = dnsSkipLabels d.len turns ptr) ∧
    (∀ turns, dhcpOptionsLen ≤ turns → ∀ m,
      dhcpParseOptions (turns + 2) dhcpOptions m = dhcpParseOptions (turns + 1) dhcpOptions m) ∧
    ((dnsParse d.len).Within d.data d.len ↔
      (DnsAnswering d.data d.len → QuestionEnds d.data d.len dnsHeaderSize)) ∧
    ((dhcpParse d.len).Within d.data d.len ↔
      (DhcpReplying d.data d.len → OptionsInside d.data d.len dhcpOptions)) := by
  refine ⟨fun turns enough ptr => ⟨?_, ?_⟩, fun turns enough m => ?_,
    dnsParse_within_iff d.data d.len, dhcpParse_within_iff d.data d.len⟩
  · exact dnsSkipQuestion_succ (by omega)
  · exact dnsSkipLabels_succ (by omega)
  · exact dhcpParseOptions_succ (by omega) m

/-- A response of a header alone, and a reply without options. -/
theorem parsers_read_past :
    ¬ (dnsParse 12).Within (fun i => if i = 2 then 0x80 else if i = 7 then 1 else 0) 12 ∧
    ¬ (dhcpParse 240).Within
      (fun i => if i = 0 then 2 else ([0x63, 0x82, 0x53, 0x63] : List UInt8).getD (i - 236) 0)
      240 := by
  constructor
  · rw [dnsParse_within_iff]
    intro ends
    have inside := (ends ⟨by decide, by decide, by decide, by decide⟩).inside
    omega
  · rw [dhcpParse_within_iff]
    intro options
    have inside : 240 < 240 := (options ⟨by decide, by decide, by decide⟩).inside
    omega

end ZurichOS
