import ZurichOS.NetReceiveCore
import ZurichOS.OnesComplement
import ZurichOS.Words
import Mathlib.Algebra.Group.Even

/-!
The internet checksum, as `services/net/ip.c` and `services/net/icmp.c` compute it.
-/

namespace ZurichOS

open OnesComplement Words

abbrev ipTtlDefault : Nat := 64

/-- A 16-bit word, as the processor loads it. -/
def loadWord (low high : UInt8) : Nat := low.toNat + 256 * high.toNat

/-- The sum over the words of a buffer and its last byte, from a sum of the words before. -/
def sumWords (sum : Nat) : List UInt8 → Nat
  | low :: high :: rest => sumWords (u32 (sum + loadWord low high)) rest
  | [last] => u32 (sum + last.toNat)
  | [] => sum

/-- The rounds of the loop that folds the carries, and the sum it leaves once there are none. -/
def foldCarries : Nat → Nat → Option Nat
  | 0, _ => none
  | fuel + 1, sum =>
      if sum >>> 16 = 0 then some sum
      else foldCarries fuel (u32 ((sum &&& 0xFFFF) + sum >>> 16))

def internetChecksum (fuel : Nat) (data : List UInt8) : Option Nat :=
  (foldCarries fuel (sumWords 0 data)).map fun sum => (0xFFFFFFFF - sum) % 65536

def ipChecksum (fuel : Nat) (data : List UInt8) : Option Nat := internetChecksum fuel data

def icmpChecksum (fuel : Nat) (data : List UInt8) : Option Nat := internetChecksum fuel data

/-- The word at an offset; the last byte of a buffer of odd length is one with a zero byte. -/
def wordAt (data : List UInt8) (offset : Nat) : Nat :=
  loadWord (data.getD offset 0) (data.getD (offset + 1) 0)

def storeWord (data : List UInt8) (offset value : Nat) : List UInt8 :=
  (data.set offset (UInt8.ofNat value)).set (offset + 1) (UInt8.ofNat (value / 256))

/-- A 16-bit word in network order. -/
def networkWord (value : Nat) : List UInt8 := [UInt8.ofNat (value / 256), UInt8.ofNat value]

/-- The header `ip_send` fills in before it sums it. -/
def ipSendHeader (packetId protocol source dest len : Nat) : List UInt8 :=
  [UInt8.ofNat (ipVersion <<< 4 ||| ipHeaderLen / 4), 0] ++ networkWord (ipHeaderLen + len) ++
    networkWord packetId ++ [0, 0] ++ [UInt8.ofNat ipTtlDefault, UInt8.ofNat protocol] ++ [0, 0] ++
    networkWord (source / 65536) ++ networkWord source ++ networkWord (dest / 65536) ++
    networkWord dest

/-- No addition of the loops over the words goes past the accumulator. -/
def SumsFit (sum : Nat) : List UInt8 → Prop
  | low :: high :: rest => sum + loadWord low high < 4294967296 ∧
      SumsFit (u32 (sum + loadWord low high)) rest
  | [last] => sum + last.toNat < 4294967296
  | [] => True

/-- The sum of the words, without a bound. -/
def wordTotal : List UInt8 → Nat
  | low :: high :: rest => loadWord low high + wordTotal rest
  | [last] => last.toNat
  | [] => 0

/-- Buffers of one length that agree on every byte outside one word. -/
structure DifferAt (data other : List UInt8) (offset : Nat) : Prop where
  length : other.length = data.length
  elsewhere : ∀ p, p ≠ offset → p ≠ offset + 1 → other[p]? = data[p]?

variable {data other : List UInt8} {sum offset value fuel : Nat}

theorem loadWord_lt (low high : UInt8) : loadWord low high < 65536 := by
  have lowBound := low.toNat_lt
  have highBound := high.toNat_lt
  rw [loadWord]
  omega

theorem wordTotal_le (data : List UInt8) : 2 * wordTotal data ≤ 65535 * data.length := by
  induction data using wordTotal.induct with
  | case1 low high rest ih =>
      have word := loadWord_lt low high
      simp only [wordTotal, List.length_cons]
      omega
  | case2 last =>
      have byte := last.toNat_lt
      simp only [wordTotal, List.length_cons, List.length_nil]
      omega
  | case3 => simp [wordTotal]

/-- The induction is on the words: what is still to come fits behind the sum so far. -/
theorem sumWords_total (fits : sum + wordTotal data < 4294967296) :
    SumsFit sum data ∧ sumWords sum data = sum + wordTotal data := by
  induction data using wordTotal.induct generalizing sum with
  | case1 low high rest ih =>
      rw [wordTotal] at fits
      have small : sum + loadWord low high < 4294967296 := by omega
      obtain ⟨later, total⟩ := 
        ih (show sum + loadWord low high + wordTotal rest < 4294967296 by omega)
      rw [SumsFit, sumWords, u32_eq_of_lt small, wordTotal]
      exact ⟨⟨small, later⟩, by omega⟩
  | case2 last =>
      rw [wordTotal] at fits
      exact ⟨fits, u32_eq_of_lt fits⟩
  | case3 => exact ⟨trivial, rfl⟩

theorem round_eq (sum : Nat) :
    (sum &&& 0xFFFF) + sum >>> 16 = fold 65536 sum := by
  rw [fold, Nat.shiftRight_eq_div_pow]
  congr 1
  exact Nat.and_two_pow_sub_one_eq_mod sum 16

theorem foldCarries_step (bound : sum < 4294967296) :
    foldCarries (fuel + 1) sum =
      if sum < 65536 then some sum else foldCarries fuel (fold 65536 sum) := by
  have carry : sum >>> 16 = 0 ↔ sum < 65536 := by
    rw [Nat.shiftRight_eq_div_pow]
    omega
  have small : fold 65536 sum < 4294967296 := by
    rw [fold]
    omega
  rw [foldCarries, round_eq, u32_eq_of_lt small]
  simp only [carry]

/-- Two rounds are enough: the first leaves at most one carry, and the second none. -/
theorem foldCarries_folds (bound : sum < 4294967296) (enough : 3 ≤ fuel) :
    ∃ digit, Folds 65536 sum digit ∧ foldCarries fuel sum = some digit := by
  obtain ⟨more, rfl⟩ : ∃ more, fuel = more + 1 + 1 + 1 := ⟨fuel - 3, by omega⟩
  have positive : 0 < 65536 := by decide
  have once : fold 65536 sum < 4294967296 := by
    rw [fold]
    omega
  have twice : 65536 ≤ fold 65536 sum → fold 65536 (fold 65536 sum) < 65536 := by
    simp only [fold]
    omega
  rw [foldCarries_step bound]
  split
  next small => exact ⟨sum, .self small, rfl⟩
  next =>
    rw [foldCarries_step once]
    split
    next small => exact ⟨_, (Folds.self small).of_fold positive, rfl⟩
    next carries =>
      have small := twice (by omega)
      rw [foldCarries_step (by omega), if_pos small]
      exact ⟨_, ((Folds.self small).of_fold positive).of_fold positive, rfl⟩

/-- What the checksum of a buffer is. -/
structure IsChecksum (data : List UInt8) (result digit : Nat) : Prop where
  folds : Folds 65536 (wordTotal data) digit
  eq : result = 65535 - digit

theorem internetChecksum_is (short : data.length ≤ 65535) (enough : 3 ≤ fuel) :
    ∃ result digit, IsChecksum data result digit ∧ internetChecksum fuel data = some result := by
  have total := wordTotal_le data
  obtain ⟨-, sums⟩ := sumWords_total (show 0 + wordTotal data < 4294967296 by omega)
  obtain ⟨digit, folds, ran⟩ := 
    foldCarries_folds (show wordTotal data < 4294967296 by omega) enough
  have bound := folds.lt
  refine ⟨65535 - digit, digit, ⟨folds, rfl⟩, ?_⟩
  rw [internetChecksum, sums, Nat.zero_add, ran, Option.map_some]
  congr 1
  omega

theorem IsChecksum.zero_iff {result digit : Nat} (is : IsChecksum data result digit) :
    result = 0 ↔ wordTotal data ≠ 0 ∧ 65535 ∣ wordTotal data := by
  have bound := is.folds.lt
  have full : digit = 65535 ↔ wordTotal data ≠ 0 ∧ 65535 ∣ wordTotal data :=
    is.folds.full_iff (by decide)
  rw [← full, is.eq]
  omega

theorem wordAt_cons {low high : UInt8} {rest : List UInt8} :
    wordAt (low :: high :: rest) (offset + 2) = wordAt rest offset := by
  simp [wordAt]

theorem DifferAt.rest {low high low' high' : UInt8} {rest rest' : List UInt8}
    (differ : DifferAt (low :: high :: rest) (low' :: high' :: rest') (offset + 2)) :
    low' = low ∧ high' = high ∧ DifferAt rest rest' offset := by
  refine ⟨by simpa using differ.elsewhere 0 (by omega) (by omega),
    by simpa using differ.elsewhere 1 (by omega) (by omega), ?_, fun p notLow notHigh => ?_⟩
  · have same := differ.length
    simp only [List.length_cons] at same
    omega
  · simpa using differ.elsewhere (p + 2) (by omega) (by omega)

theorem wordTotal_differ (half : Nat) (differ : DifferAt data other (2 * half)) :
    wordTotal other + wordAt data (2 * half) = wordTotal data + wordAt other (2 * half) := by
  induction data using wordTotal.induct generalizing other half with
  | case1 low high rest ih =>
      obtain ⟨low', high', rest', rfl⟩ : ∃ low' high' rest', other = low' :: high' :: rest' := by
        rcases other with _ | ⟨low', _ | ⟨high', rest'⟩⟩
        · cases differ.length
        · cases differ.length
        · exact ⟨low', high', rest', rfl⟩
      cases half with
      | zero =>
          have same : rest' = rest := List.ext_getElem? fun p => by
            simpa using differ.elsewhere (p + 2) (by omega) (by omega)
          simp only [wordTotal, wordAt, same, Nat.mul_zero, Nat.zero_add, List.getD_cons_zero,
            List.getD_cons_succ]
          omega
      | succ half =>
          obtain ⟨rfl, rfl, later⟩ := differ.rest
          have known := ih half later
          rw [Nat.mul_succ, wordAt_cons, wordAt_cons, wordTotal, wordTotal]
          omega
  | case2 last =>
      obtain ⟨last', rfl⟩ : ∃ last', other = [last'] := List.length_eq_one_iff.mp differ.length
      cases half with
      | zero => simp [wordTotal, wordAt, loadWord, Nat.add_comm]
      | succ half =>
          have same : last' = last := by simpa using differ.elsewhere 0 (by omega) (by omega)
          rw [same]
  | case3 =>
      rw [List.length_eq_zero_iff.mp differ.length]

theorem storeWord_differ (data : List UInt8) (offset value : Nat) :
    DifferAt data (storeWord data offset value) offset := by
  refine ⟨by simp [storeWord], fun p notLow notHigh => ?_⟩
  rw [storeWord, List.getElem?_set_ne (Ne.symm notHigh), List.getElem?_set_ne (Ne.symm notLow)]

theorem wordAt_storeWord (word : value < 65536) (inside : offset + 1 < data.length) :
    wordAt (storeWord data offset value) offset = value := by
  have low : (storeWord data offset value).getD offset 0 = UInt8.ofNat value := by
    simp [storeWord, List.getD_eq_getElem?_getD, show offset < data.length by omega]
  have high : (storeWord data offset value).getD (offset + 1) 0 = UInt8.ofNat (value / 256) := by
    simp [storeWord, List.getD_eq_getElem?_getD, inside]
  rw [wordAt, low, high, loadWord, UInt8.toNat_ofNat', UInt8.toNat_ofNat']
  omega

theorem IsChecksum.stored {result digit : Nat} (is : IsChecksum data result digit)
    (even : Even offset) (inside : offset + 1 < data.length) (zero : wordAt data offset = 0) :
    wordTotal (storeWord data offset result) ≠ 0 ∧
      65535 ∣ wordTotal (storeWord data offset result) := by
  have word : result < 65536 := by
    rw [is.eq]
    omega
  obtain ⟨half, rfl⟩ := even.two_dvd
  have change := wordTotal_differ half (storeWord_differ data _ result)
  rw [wordAt_storeWord word inside, zero, Nat.add_zero, is.eq] at change
  rw [is.eq, change]
  exact is.folds.complement (by decide)

/-- A buffer that passes fails once one of its words has another remainder modulo 65535. -/
theorem passes_once (even : Even offset) (whole : 65535 ∣ wordTotal data)
    (differ : DifferAt data other offset) (otherWhole : 65535 ∣ wordTotal other) :
    wordAt other offset = wordAt data offset ∨
      wordAt other offset = 0 ∧ wordAt data offset = 65535 ∨
      wordAt other offset = 65535 ∧ wordAt data offset = 0 := by
  obtain ⟨half, rfl⟩ := even.two_dvd
  have change := wordTotal_differ half differ
  have same : wordAt other (2 * half) ≡ wordAt data (2 * half) [MOD 65535] := by
    calc wordAt other (2 * half)
        ≡ wordTotal data + wordAt other (2 * half) [MOD 65535] := by
          simpa using (Nat.modEq_zero_iff_dvd.mpr whole).symm.add_right (wordAt other (2 * half))
      _ = wordTotal other + wordAt data (2 * half) := change.symm
      _ ≡ wordAt data (2 * half) [MOD 65535] := by
          simpa using (Nat.modEq_zero_iff_dvd.mpr otherWhole).add_right (wordAt data (2 * half))
  exact digits_eq (loadWord_lt _ _) (loadWord_lt _ _) same

/-- The sums of a short buffer stay in the accumulator and its carries are folded away, the
buffer with its checksum stored passes, and does not pass once a word is another one, unless that
changes one zero into the other. -/
theorem internet_checksum (short : data.length ≤ 65535) (enough : 3 ≤ fuel) :
    SumsFit 0 data ∧
    (∀ sum < 4294967296, (sum &&& 0xFFFF) + sum >>> 16 < 4294967296) ∧
    ∃ result, ipChecksum fuel data = some result ∧
      ∀ offset, Even offset → offset + 1 < data.length → wordAt data offset = 0 →
        ipChecksum fuel (storeWord data offset result) = some 0 ∧
        ∀ place other, Even place → DifferAt (storeWord data offset result) other place →
          wordAt other place ≠ wordAt (storeWord data offset result) place →
          ¬ (wordAt other place = 0 ∧ wordAt (storeWord data offset result) place = 65535) →
          ¬ (wordAt other place = 65535 ∧ wordAt (storeWord data offset result) place = 0) →
          ∃ again, ipChecksum fuel other = some again ∧ again ≠ 0 := by
  have total := wordTotal_le data
  obtain ⟨fit, -⟩ := sumWords_total (show 0 + wordTotal data < 4294967296 by omega)
  obtain ⟨result, digit, is, ran⟩ := internetChecksum_is short enough
  refine ⟨fit, fun sum bound => ?_, result, ran, fun offset even inside zero => ?_⟩
  · rw [round_eq, fold]
    omega
  · have passes := is.stored even inside zero
    have length := (storeWord_differ data offset result).length
    constructor
    · obtain ⟨again, _, isAgain, ranAgain⟩ :=
        internetChecksum_is (show (storeWord data offset result).length ≤ 65535 by omega) enough
      rw [isAgain.zero_iff.mpr passes] at ranAgain
      exact ranAgain
    · intro place other evenPlace differ changed notZero notFull
      have otherLength := differ.length
      obtain ⟨again, _, isAgain, ranAgain⟩ :=
        internetChecksum_is (show other.length ≤ 65535 by omega) enough
      refine ⟨again, ranAgain, fun zeroAgain => ?_⟩
      have otherPasses := isAgain.zero_iff.mp zeroAgain
      rcases passes_once evenPlace passes.2 differ otherPasses.2 with same | toZero | toFull
      · exact changed same
      · exact notZero toZero
      · exact notFull toFull

theorem internet_checksum_three :
    ∃ result, ipChecksum 3 [0, 0, 1] = some result ∧
      ipChecksum 3 (storeWord [0, 0, 1] 0 result) = some 0 := by
  obtain ⟨-, -, result, ran, verifies⟩ :=
    internet_checksum (show ([0, 0, 1] : List UInt8).length ≤ 65535 by decide)
      (show 3 ≤ 3 by decide)
  exact ⟨result, ran, (verifies 0 (by decide) (by decide) (by decide)).1⟩

/-- The header `ip_send` puts before a packet passes, whatever it sends and to whom. -/
theorem ip_send_header_passes (packetId protocol source dest len : Nat) (enough : 3 ≤ fuel) :
    ∃ result, ipChecksum fuel (ipSendHeader packetId protocol source dest len) = some result ∧
      ipChecksum fuel (storeWord (ipSendHeader packetId protocol source dest len) 10 result) =
        some 0 := by
  have length : (ipSendHeader packetId protocol source dest len).length = ipHeaderLen := by
    simp [ipSendHeader, networkWord]
  have zero : wordAt (ipSendHeader packetId protocol source dest len) 10 = 0 := by
    simp [ipSendHeader, networkWord, wordAt, loadWord]
  obtain ⟨result, digit, is, ran⟩ := internetChecksum_is
    (show (ipSendHeader packetId protocol source dest len).length ≤ 65535 by rw [length]; decide)
    enough
  have stored := (storeWord_differ (ipSendHeader packetId protocol source dest len) 10 result).length
  obtain ⟨again, _, isAgain, ranAgain⟩ := internetChecksum_is
    (show (storeWord (ipSendHeader packetId protocol source dest len) 10 result).length ≤ 65535 by
      rw [stored, length]; decide) enough
  rw [isAgain.zero_iff.mpr (is.stored (by decide) (by rw [length]; decide) zero)] at ranAgain
  exact ⟨result, ran, ranAgain⟩

end ZurichOS
