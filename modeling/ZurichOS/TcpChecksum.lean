import ZurichOS.Wire

/-!
The checksum of TCP segments, on the wire: the words of a segment are summed as the processor loads
them, those of the pseudo-header partly as numbers.
-/

namespace ZurichOS

open OnesComplement Words

namespace Wire

/-- The sum of the words in network order, the last one filled up with a zero byte. -/
def networkTotal : List UInt8 → Nat
  | high :: low :: rest => 256 * high.toNat + low.toNat + networkTotal rest
  | [last] => 256 * last.toNat
  | [] => 0

/-- The addresses, a zero byte, the protocol and the length of the segment. -/
def pseudoHeader (srcIp destIp len : Nat) : List UInt8 :=
  networkWord (srcIp / 65536) ++ networkWord srcIp ++ networkWord (destIp / 65536) ++
    networkWord destIp ++ [0, UInt8.ofNat ipProtoTcp] ++ networkWord len

/-- The halves of both addresses together. -/
def addressTotal (srcIp destIp : Nat) : Nat :=
  srcIp / 65536 + srcIp % 65536 + (destIp / 65536 + destIp % 65536)

/-- With its pseudo-header, the segment has the ones'-complement sum that it is to have. -/
def ChecksumValid (srcIp destIp : Nat) (segment : List UInt8) : Prop :=
  Folds 65536 (networkTotal (pseudoHeader srcIp destIp segment.length ++ segment)) 0xFFFF

variable {srcIp destIp sum fuel : Nat} {data : List UInt8}

/-- Swapping the bytes of all words multiplies their sum by 256, up to multiples of 65535. -/
theorem wordTotal_swap (data : List UInt8) :
    ∃ carries, 256 * wordTotal data = networkTotal data + 65535 * carries := by
  induction data using wordTotal.induct with
  | case1 first second rest ih =>
      obtain ⟨carries, same⟩ := ih
      refine ⟨second.toNat + carries, ?_⟩
      rw [wordTotal, networkTotal, loadWord]
      omega
  | case2 last => exact ⟨0, by simp [wordTotal, networkTotal]⟩
  | case3 => exact ⟨0, rfl⟩

theorem networkTotal_word (value : Nat) (rest : List UInt8) :
    networkTotal (networkWord value ++ rest) = value % 65536 + networkTotal rest := by
  change 256 * (UInt8.ofNat (value / 256)).toNat + (UInt8.ofNat value).toNat + networkTotal rest = _
  rw [UInt8.toNat_ofNat', UInt8.toNat_ofNat']
  omega

theorem networkTotal_pseudo (wordSrc : srcIp < 4294967296) (wordDest : destIp < 4294967296)
    (len : Nat) (segment : List UInt8) :
    networkTotal (pseudoHeader srcIp destIp len ++ segment) =
      addressTotal srcIp destIp + 6 + len % 65536 + networkTotal segment := by
  rw [pseudoHeader]
  simp only [List.append_assoc, networkTotal_word]
  change _ + (_ + (_ + (_ + (256 * 0 + 6 + networkTotal (networkWord len ++ segment))))) = _
  rw [networkTotal_word, addressTotal]
  omega

theorem htons_swap {value : Nat} (word : value < 65536) :
    256 * htons value = value + 65535 * (value % 256) := by
  rw [htons]
  omega

/-- The checksum is the complement of the digit of the whole sum. -/
theorem tcpChecksum_is (wordSrc : srcIp < 4294967296) (wordDest : destIp < 4294967296)
    (short : data.length < 65536) (enough : 3 ≤ fuel) :
    ∃ digit, Folds 65536
        (addressTotal srcIp destIp + htons ipProtoTcp + htons data.length + wordTotal data) digit ∧
      tcpChecksum fuel srcIp destIp data data.length = some (65535 - digit) := by
  have total := wordTotal_le data
  have protocol : htons ipProtoTcp = 1536 := rfl
  have length : htons data.length < 65536 := by
    rw [htons]
    omega
  have halves : ∀ value < 4294967296,
      value >>> 16 &&& 0xFFFF = value / 65536 ∧ value &&& 0xFFFF = value % 65536 := by
    intro value word
    have mask := fun value => Nat.and_two_pow_sub_one_eq_mod value 16
    constructor
    · rw [Nat.shiftRight_eq_div_pow]
      exact (mask _).trans (Nat.mod_eq_of_lt (by omega))
    · exact mask _
  have small : addressTotal srcIp destIp < 262144 := by
    rw [addressTotal]
    omega
  have before : tcpChecksum fuel srcIp destIp data data.length =
      (foldCarries fuel (sumWords (addressTotal srcIp destIp + htons ipProtoTcp + htons data.length)
        data)).map fun sum => (0xFFFFFFFF - sum) % 65536 := by
    rw [tcpChecksum, List.take_length]
    rw [(halves srcIp wordSrc).1, (halves srcIp wordSrc).2, (halves destIp wordDest).1,
      (halves destIp wordDest).2, protocol]
    have sums : u32 (u32 (u32 (u32 (u32 (u32 (0 + srcIp / 65536) + srcIp % 65536) +
        destIp / 65536) + destIp % 65536) + 1536) + htons data.length) =
        addressTotal srcIp destIp + 1536 + htons data.length := by
      rw [addressTotal]
      simp only [u32]
      omega
    rw [sums]
  obtain ⟨-, sums⟩ := sumWords_total (show addressTotal srcIp destIp + htons ipProtoTcp +
    htons data.length + wordTotal data < 4294967296 by omega)
  obtain ⟨digit, folds, ran⟩ := foldCarries_folds (show addressTotal srcIp destIp +
    htons ipProtoTcp + htons data.length + wordTotal data < 4294967296 by omega) enough
  have bound := folds.lt
  refine ⟨digit, folds, ?_⟩
  rw [before, sums, ran, Option.map_some]
  congr 1
  omega

theorem tcpHeader_length (conn : TcpConn) (flags : Nat) :
    (tcpHeader conn flags).length = tcpHeaderLen := by
  simp [tcpHeader, networkWord]

/-- The segment that is sent is valid exactly if the halves of the addresses sum to a multiple of
257: they are added as numbers, and 257 times 255 is 65535. -/
theorem tcp_checksum_iff (conn : TcpConn) (flags : Nat) (data : List UInt8)
    (wordSrc : srcIp < 4294967296) (wordDest : conn.remoteIp < 4294967296)
    (fits : tcpHeaderLen + data.length ≤ packetSize) :
    ChecksumValid srcIp conn.remoteIp (tcpSegment srcIp conn flags data) ↔
      257 ∣ addressTotal srcIp conn.remoteIp := by
  have fits : 20 + data.length ≤ 1500 := fits
  have length : (tcpHeader conn flags ++ data).length = 20 + data.length := by
    rw [List.length_append, tcpHeader_length]
  have zero : wordAt (tcpHeader conn flags ++ data) 16 = 0 := by
    simp [tcpHeader, networkWord, wordAt, loadWord]
  obtain ⟨digit, folds, ran⟩ := @tcpChecksum_is srcIp conn.remoteIp 3 (tcpHeader conn flags ++ data)
    wordSrc wordDest (by rw [length]; omega) (Nat.le_refl 3)
  rw [length] at folds ran
  have is : tcpSegment srcIp conn flags data =
      storeWord (tcpHeader conn flags ++ data) 16 (65535 - digit) := by
    rw [tcpSegment, show tcpHeaderLen + data.length = 20 + data.length from rfl,
      Nat.mod_eq_of_lt (by omega), ran, Option.getD_some]
  have digitLt := folds.lt
  have differ := storeWord_differ (tcpHeader conn flags ++ data) 16 (65535 - digit)
  have stored := wordTotal_differ 8 differ
  rw [wordAt_storeWord (by omega) (by rw [length]; omega), zero, Nat.add_zero] at stored
  obtain ⟨carries, swapped⟩ :=
    wordTotal_swap (storeWord (tcpHeader conn flags ++ data) 16 (65535 - digit))
  have swappedLength := htons_swap (show 20 + data.length < 65536 by omega)
  have protocol : htons ipProtoTcp = 1536 := rfl
  have same : digit % 65535 = (addressTotal srcIp conn.remoteIp + htons ipProtoTcp +
      htons (20 + data.length) + wordTotal (tcpHeader conn flags ++ data)) % 65535 := folds.modEq
  rw [protocol] at same
  rw [ChecksumValid, is, differ.length, length, networkTotal_pseudo wordSrc wordDest,
    Nat.mod_eq_of_lt (show 20 + data.length < 65536 by omega)]
  -- The sum is that of the complement's digit swapped, less 255 times the halves.
  have divides : 65535 ∣ addressTotal srcIp conn.remoteIp + 6 + (20 + data.length) +
      networkTotal (storeWord (tcpHeader conn flags ++ data) 16 (65535 - digit)) ↔
        257 ∣ addressTotal srcIp conn.remoteIp := by
    omega
  rw [← divides]
  constructor
  · intro valid
    have whole : 65535 % 65535 = _ % 65535 := valid.modEq
    exact Nat.dvd_of_mod_eq_zero whole.symm
  · intro whole
    exact ⟨by decide, (Nat.mod_eq_zero_of_dvd whole).symm, by omega⟩

/-- From 10.0.2.15 to 10.0.2.2 a segment without payload has another sum. -/
theorem tcp_checksum_invalid :
    ¬ ChecksumValid 0x0A00020F 0x0A000202
      (tcpSegment 0x0A00020F { TcpConn.zero with remoteIp := 0x0A000202 } tcpSyn []) := by
  intro valid
  have whole : 65535 % 65535 = _ % 65535 := valid.modEq
  exact absurd whole (by decide)

theorem tcp_checksum_iff_three :
    ChecksumValid 0x0A00020F 0x0A000202
        (tcpSegment 0x0A00020F { TcpConn.zero with remoteIp := 0x0A000202 } tcpAck [1, 2, 3]) ↔
      257 ∣ addressTotal 0x0A00020F 0x0A000202 :=
  tcp_checksum_iff { TcpConn.zero with remoteIp := 0x0A000202 } tcpAck [1, 2, 3] (by decide)
    (by decide) (by decide)

end Wire

end ZurichOS
