import ZurichOS.Arp
import ZurichOS.Formatting
import ZurichOS.RamfsBounds
import ZurichOS.SocketCore

set_option linter.all false

/-!
The texts that `kernel/fs/procfs.c` generates into its buffer, and what a read copies of them.
-/

namespace ZurichOS

open ByteBuffer Formatting Words

abbrev procfsBufferSize : Nat := 2048

/-- The result of `cpuid`: the words of the vendor's name, and of the features. -/
structure Cpuid where
  vendor : List UInt8
  features : Nat
  edx : Nat
  ecx : Nat
  name : vendor.length = 12

structure NetifAddresses where
  ip : Nat
  netmask : Nat
  gateway : Nat

/-- What the generators look at; `date` and `time` are those of the build. -/
structure ProcfsKernel where
  totalMemory : Nat
  freeMemory : Nat
  ticks : Nat
  cpuid : Cpuid
  currentPid : Option Nat
  taskCount : Nat
  arpCache : Nat → ArpEntry
  netif : Option NetifAddresses
  sockets : Nat → Socket
  date : String
  time : String
  dateLength : date.length = 11
  timeLength : time.length = 8

/-- What `socket_get_info` fills in, with the state of the socket. -/
structure SocketInfo where
  type : Nat
  localIp : Nat
  localPort : Nat
  remoteIp : Nat
  remotePort : Nat
  state : Nat

def socketGetInfo (sockets : Nat → Socket) (index : Nat) : Option SocketInfo :=
  if maxSockets ≤ index then none
  else if !(sockets index).inUse then none
  else
    let sock := sockets index
    some ⟨sock.type, sock.localIp, sock.localPort, sock.remoteIp, sock.remotePort,
      if sock.listening then 1 else if sock.connected then 2 else 0⟩

section Generators

variable (k : ProcfsKernel)

def generateMeminfo : List UInt8 :=
  let totalKb := k.totalMemory / 1024
  let freeKb := k.freeMemory / 1024
  let buffersKb := 0
  let cachedKb := totalKb / 10
  written [.text "MemTotal:       ", .number totalKb, .text " kB\n",
    .text "MemFree:        ", .number freeKb, .text " kB\n",
    .text "MemAvailable:   ", .number (u32 (freeKb + cachedKb)), .text " kB\n",
    .text "Buffers:        ", .number buffersKb, .text " kB\n",
    .text "Cached:         ", .number cachedKb, .text " kB\n",
    .text "SwapTotal:      0 kB\n", .text "SwapFree:       0 kB\n"]

def generateUptime : List UInt8 :=
  let seconds := k.ticks / 100
  let centiseconds := k.ticks % 100
  written [.number seconds, .text ".", .flag (centiseconds < 10) "0", .number centiseconds,
    .text " ", .number (u32 (seconds * 9) / 10), .text ".", .number centiseconds, .text "\n"]

def cpuFlags : List Piece :=
  let edx := k.cpuid.edx
  let ecx := k.cpuid.ecx
  [.flag (edx.testBit 0) " fpu", .flag (edx.testBit 1) " vme", .flag (edx.testBit 2) " de",
    .flag (edx.testBit 3) " pse", .flag (edx.testBit 4) " tsc", .flag (edx.testBit 5) " msr",
    .flag (edx.testBit 6) " pae", .flag (edx.testBit 8) " cx8", .flag (edx.testBit 9) " apic",
    .flag (edx.testBit 15) " cmov", .flag (edx.testBit 19) " clflush",
    .flag (edx.testBit 23) " mmx", .flag (edx.testBit 24) " fxsr", .flag (edx.testBit 25) " sse",
    .flag (edx.testBit 26) " sse2", .flag (ecx.testBit 0) " sse3", .flag (ecx.testBit 9) " ssse3",
    .flag (ecx.testBit 19) " sse4_1", .flag (ecx.testBit 20) " sse4_2",
    .flag (ecx.testBit 28) " avx"]

def generateCpuinfo : List UInt8 :=
  written [.text "processor\t: 0\n", .text "vendor_id\t: "] ++ cString k.cpuid.vendor ++
    written ([.text "\n", .text "cpu family\t: ", .number (k.cpuid.features >>> 8 &&& 0xF),
      .text "\n", .text "model\t\t: ", .number (k.cpuid.features >>> 4 &&& 0xF), .text "\n",
      .text "stepping\t: ", .number (k.cpuid.features &&& 0xF), .text "\n", .text "flags\t\t:"] ++
      cpuFlags k ++ [.text "\n", .text "bogomips\t: ", .number 4000, .text ".00\n"])

def generateVersion : List UInt8 :=
  written [.text "ZurichOS version 0.1.0 (i686-elf-gcc) #1 SMP ", .text k.date, .text " ",
    .text k.time, .text "\n"]

def generateCmdline : List UInt8 := written [.text "root=/dev/hda ro quiet\n"]

def generateFilesystems : List UInt8 :=
  written [.text "nodev\tramfs\n", .text "nodev\tdevfs\n", .text "nodev\tprocfs\n",
    .text "\tfat32\n"]

def generateMounts : List UInt8 :=
  written [.text "ramfs / ramfs rw 0 0\n", .text "devfs /dev devfs rw 0 0\n",
    .text "procfs /proc procfs rw 0 0\n", .text "/dev/hda /disks/hda fat32 rw 0 0\n"]

def generateSelf : List UInt8 := written [.number (k.currentPid.getD 0), .text "\n"]

def generateLoadavg : List UInt8 :=
  written [.text "0.00 0.00 0.00 1/", .number (if 0 < k.taskCount then k.taskCount else 1),
    .text " 1\n"]

def generateStat : List UInt8 :=
  written [.text "cpu  ", .number (k.ticks / 10), .text " 0 ", .number (k.ticks / 100), .text " ",
    .number k.ticks, .text " 0 0 0 0 0 0\n", .text "intr 0\n", .text "ctxt 0\n",
    .text "btime 0\n", .text "processes 1\n", .text "procs_running 1\n",
    .text "procs_blocked 0\n"]

def formatIp (ip : Nat) : List UInt8 :=
  written [.number (ip >>> 24 &&& 0xFF), .text ".", .number (ip >>> 16 &&& 0xFF), .text ".",
    .number (ip >>> 8 &&& 0xFF), .text ".", .number (ip &&& 0xFF)]

def formatMac (mac : Nat → UInt8) : List UInt8 :=
  (List.range 6).flatMap fun i =>
    (if 0 < i then ascii ":" else []) ++ hexadecimal false 2 (mac i).toNat

/-- The columns of the numbers of an address, and of the dots between them. -/
def ipWidth (ip : Nat) : Nat :=
  ((List.range 4).map fun j =>
    let d := ip >>> (24 - j * 8) &&& 0xFF
    (if 100 ≤ d then 3 else if 10 ≤ d then 2 else 1) + 1).sum - 1

def arpLine (entry : ArpEntry) : List UInt8 :=
  formatIp entry.ip ++ List.replicate (16 - ipWidth entry.ip) 0x20 ++
    ascii " 0x1     0x2    " ++ formatMac entry.mac ++ ascii "     eth0\n"

def generateNetArp : List UInt8 :=
  ascii "IP address       HW type  Flags  HW address            Device\n" ++
    (List.range 32).flatMap fun i =>
      match arpGetEntry k.arpCache i with
      | some entry => if entry.ip ≠ 0 then arpLine entry else []
      | none => []

def generateNetDev : List UInt8 :=
  written
    [.text "Inter-|   Receive                                                |  Transmit\n",
      .text (" face |bytes    packets errs drop fifo frame compressed multicast|" ++
        "bytes    packets errs drop fifo colls carrier compressed\n"),
      .text ("    lo:       0       0    0    0    0     0          0         0  " ++
        "      0       0    0    0    0     0       0          0\n"),
      .flag k.netif.isSome ("  eth0:       0       0    0    0    0     0          0         0  " ++
        "      0       0    0    0    0     0       0          0\n")]

def generateNetRoute : List UInt8 :=
  written [.text ("Iface\tDestination\tGateway \tFlags\tRefCnt\tUse\tMetric\tMask\t\tMTU\t" ++
      "Window\tIRTT\n")] ++
    match k.netif with
    | none => []
    | some netif =>
        if netif.ip ≠ 0 then
          written [.text "eth0\t00000000\t", .hex 8 netif.gateway,
            .text "\t0003\t0\t0\t0\t00000000\t0\t0\t0\n", .text "eth0\t",
            .hex 8 (netif.ip &&& netif.netmask), .text "\t00000000\t0001\t0\t0\t0\t",
            .hex 8 netif.netmask, .text "\t0\t0\t0\n"]
        else []

/-- The line of a socket, with the two digits of its state. -/
def socketLine (status : SocketInfo → String) (slot : Nat) (info : SocketInfo) : List UInt8 :=
  written [.text " ", .flag (slot < 10) " ", .number slot, .text ": ", .hex 8 info.localIp,
    .text ":", .hex 4 info.localPort, .text " ", .hex 8 info.remoteIp, .text ":",
    .hex 4 info.remotePort, .text " ", .text (status info),
    .text " 00000000:00000000 00000000:00000000\n"]

/-- The lines of the sockets of a type; the slots count the lines. -/
def socketLines (type : Nat) (status : SocketInfo → String) : (slot : Nat) → List Nat → List UInt8
  | _, [] => []
  | slot, i :: rest =>
      match socketGetInfo k.sockets i with
      | some info =>
          if info.type = type then
            socketLine status slot info ++ socketLines type status (slot + 1) rest
          else socketLines type status slot rest
      | none => socketLines type status slot rest

def socketHeader : String := "  sl  local_address rem_address   st tx_queue rx_queue\n"

def tcpStatus (info : SocketInfo) : String :=
  if info.state = 1 then "0A" else if info.state = 2 then "01" else "07"

def udpStatus (_ : SocketInfo) : String := "07"

def generateNetTcp : List UInt8 :=
  ascii socketHeader ++ socketLines k sockStream tcpStatus 0 (List.range 64)

def generateNetUdp : List UInt8 :=
  ascii socketHeader ++ socketLines k sockDgram udpStatus 0 (List.range 64)

/-- What a read of a type of file puts into the buffer, from its start on. -/
def procfsGenerate : Nat → Option (List UInt8)
  | 1 => some (generateMeminfo k)
  | 2 => some (generateUptime k)
  | 3 => some (generateCpuinfo k)
  | 4 => some (generateVersion k)
  | 5 => some generateCmdline
  | 6 => some generateFilesystems
  | 7 => some generateMounts
  | 8 => some (generateSelf k)
  | 9 => some (generateLoadavg k)
  | 10 => some (generateStat k)
  | 11 => some (ascii "zurich\n")
  | 12 => some (ascii "ZurichOS\n")
  | 13 => some (ascii "0.1.0\n")
  | 14 => some (written [.text "#1 SMP ", .text k.date, .text "\n"])
  | 15 => some (generateNetArp k)
  | 16 => some (generateNetDev k)
  | 17 => some (generateNetRoute k)
  | 18 => some (generateNetTcp k)
  | 19 => some (generateNetUdp k)
  | _ => none

/-- The result of a read, and the positions of the buffer it copies from. -/
def procfsDynamicRead (type offset size : Nat) : Int × List Nat :=
  match procfsGenerate k type with
  | none => (0, [])
  | some text =>
      let len := text.length
      if (len : Int) ≤ int32 offset then (0, [])
      else
        let bytesToCopy := int32 (u32 (len + 4294967296 - offset))
        let bytesToCopy := if int32 size < bytesToCopy then int32 size else bytesToCopy
        (bytesToCopy, copied offset (bytesToCopy % 4294967296).toNat)

end Generators

/-- The open sockets of a type. -/
def socketCount (sockets : Nat → Socket) (type : Nat) : Nat :=
  (List.range maxSockets).countP fun i => (sockets i).inUse && (sockets i).type = type

/-- A read copies what was generated, and no more: its arguments are not negative as `int`, or
nothing is left for it. -/
def ReadInside (len offset size : Nat) : Prop :=
  offset < 2147483648 ∧ (len ≤ offset ∨ size < 2147483648) ∨
    2147483648 ≤ offset ∧ size = 0 ∧ len + (4294967296 - offset) < 2147483648

variable {k : ProcfsKernel} {type slot offset size len : Nat} {status : SocketInfo → String}
  {text : List UInt8}

section Lengths

theorem digits_length_succ {value : Nat} (room : Nat) (positive : value ≠ 0) :
    (digits (room + 1) value).length = (digits room (value / 10)).length + 1 := by
  rw [digits, if_neg positive, List.length_append, List.length_singleton]

theorem decimal_length {d : Nat} (byte : d < 256) :
    (decimal d).length = if 100 ≤ d then 3 else if 10 ≤ d then 2 else 1 := by
  have last : ∀ room, (digits (room + 1) 0).length = 0 := fun _ => rfl
  rw [decimal]
  by_cases zero : d = 0
  · rw [if_pos zero, if_neg (by omega), if_neg (by omega), List.length_singleton]
  · rw [if_neg zero, digits_length_succ 11 zero]
    by_cases tens : d / 10 = 0
    · rw [tens, last, if_neg (by omega), if_neg (by omega)]
    · rw [digits_length_succ 10 tens]
      by_cases hundreds : d / 10 / 10 = 0
      · rw [hundreds, last, if_neg (by omega), if_pos (by omega)]
      · have thousands : d / 10 / 10 / 10 = 0 := by omega
        rw [digits_length_succ 9 hundreds, thousands, last, if_pos (by omega)]

theorem formatIp_length (ip : Nat) : (formatIp ip).length = ipWidth ip := by
  have byte : ∀ value : Nat, value &&& 0xFF < 256 := fun value =>
    Nat.lt_of_le_of_lt Nat.and_le_right (by decide)
  have dot : ".".length = 1 := rfl
  simp only [formatIp, written, List.flatMap_cons, List.flatMap_nil, List.length_append, Piece.bytes,
    decimal_length (byte _), ascii_length, List.length_nil, ipWidth, dot]
  simp [List.range_succ]
  omega

theorem ipWidth_le (ip : Nat) : ipWidth ip ≤ 15 := by
  have width : ∀ d : Nat, (if 100 ≤ d then 3 else if 10 ≤ d then 2 else 1) ≤ 3 := by
    intro d
    split_ifs <;> omega
  have first := width (ip >>> 24 &&& 255)
  have second := width (ip >>> 16 &&& 255)
  have third := width (ip >>> 8 &&& 255)
  have fourth := width (ip &&& 255)
  simp only [ipWidth, List.range_succ, List.range_zero, List.nil_append, List.cons_append,
    List.map_cons, List.map_nil, List.sum_cons, List.sum_nil]
  simp only [Nat.zero_mul, Nat.one_mul, Nat.reduceMul, Nat.reduceSub, Nat.shiftRight_zero]
  omega

theorem formatMac_length (mac : Nat → UInt8) : (formatMac mac).length = 17 := by
  have field : ∀ i, ((if 0 < i then ascii ":" else []) ++ hexadecimal false 2 (mac i).toNat).length =
      (if 0 < i then 1 else 0) + 2 := by
    intro i
    rw [List.length_append, hexadecimal_length]
    split
    · rw [ascii_length]
      rfl
    · rfl
  simp only [formatMac, List.length_flatMap, field]
  rfl

theorem arpLine_length (entry : ArpEntry) : (arpLine entry).length = 59 := by
  have width := ipWidth_le entry.ip
  simp only [arpLine, List.length_append, formatIp_length, List.length_replicate, ascii_length,
    formatMac_length]
  have first : " 0x1     0x2    ".length = 16 := rfl
  have last : "     eth0\n".length = 10 := rfl
  omega

theorem socketLine_length (two : ∀ info, (status info).length = 2) (small : slot < 100)
    (info : SocketInfo) : (socketLine status slot info).length = 72 := by
  have number := decimal_length (show slot < 256 by omega)
  have most : (if 100 ≤ slot then 3 else if 10 ≤ slot then 2 else 1) =
      if slot < 10 then 1 else 2 := by split_ifs <;> omega
  rw [most] at number
  have pad : (if decide (slot < 10) = true then ascii " " else []).length =
      if slot < 10 then 1 else 0 := by
    simp only [decide_eq_true_eq]
    split
    · rw [ascii_length]
      rfl
    · rfl
  have blank : " ".length = 1 := rfl
  have colon : ":".length = 1 := rfl
  have stop : ": ".length = 2 := rfl
  have queues : " 00000000:00000000 00000000:00000000\n".length = 37 := String.length_ofList
  simp only [socketLine, written, List.flatMap_cons, List.flatMap_nil, List.length_append,
    Piece.bytes, number, pad, ascii_length, hexadecimal_length, List.length_nil, two, blank, colon,
    stop, queues]
  split <;> rfl

theorem socketLines_length (two : ∀ info, (status info).length = 2) (indices : List Nat)
    (small : slot + indices.length ≤ 100) :
    (socketLines k type status slot indices).length =
      72 * indices.countP fun i => (socketGetInfo k.sockets i).any fun info => info.type = type := by
  induction indices generalizing slot with
  | nil => rfl
  | cons i rest ih =>
      rw [List.length_cons] at small
      rw [socketLines, List.countP_cons]
      cases socketGetInfo k.sockets i with
      | none =>
          rw [ih (by omega)]
          simp
      | some info =>
          dsimp only
          by_cases isType : info.type = type
          · rw [if_pos isType, List.length_append, socketLine_length two (by omega), ih (by omega)]
            simp [isType]
            omega
          · rw [if_neg isType, ih (by omega)]
            simp [isType]

/-- The table ends before the indices that the generators try do. -/
theorem countP_sockets (sockets : Nat → Socket) (type : Nat) :
    ((List.range 64).countP fun i => (socketGetInfo sockets i).any fun info => info.type = type) =
      socketCount sockets type := by
  have inside : ∀ i ∈ List.range maxSockets,
      ((socketGetInfo sockets i).any fun info => decide (info.type = type)) = true ↔
        ((sockets i).inUse && decide ((sockets i).type = type)) = true := by
    intro i member
    rw [socketGetInfo, if_neg (Nat.not_le.mpr (List.mem_range.mp member))]
    cases (sockets i).inUse <;> simp
  have outside : ∀ i ∈ (List.range 32).map (32 + ·),
      ((socketGetInfo sockets i).any fun info => decide (info.type = type)) = false := by
    intro i member
    obtain ⟨rest, -, rfl⟩ := List.mem_map.mp member
    rw [socketGetInfo, if_pos (Nat.le_add_right 32 rest)]
    rfl
  have none : ((List.range 32).map (32 + ·)).countP (fun i =>
      (socketGetInfo sockets i).any fun info => info.type = type) = 0 :=
    List.countP_eq_zero.mpr fun i member => by simp [outside i member]
  rw [show (64 : Nat) = 32 + 32 from rfl, List.range_add, List.countP_append, none, Nat.add_zero,
    socketCount]
  exact List.countP_congr inside

theorem header_length : (ascii socketHeader).length = 55 := by
  rw [ascii_length, socketHeader]
  exact String.length_ofList

theorem generateNetTcp_length (k : ProcfsKernel) :
    (generateNetTcp k).length = 55 + 72 * socketCount k.sockets sockStream := by
  have two : ∀ info, (tcpStatus info).length = 2 := by
    intro info
    unfold tcpStatus
    split_ifs <;> rfl
  rw [generateNetTcp, List.length_append, header_length, socketLines_length two _ (by simp),
    countP_sockets]

theorem generateNetUdp_length (k : ProcfsKernel) :
    (generateNetUdp k).length = 55 + 72 * socketCount k.sockets sockDgram := by
  have two : ∀ info, (udpStatus info).length = 2 := fun _ => by
    unfold udpStatus
    rfl
  rw [generateNetUdp, List.length_append, header_length, socketLines_length two _ (by simp),
    countP_sockets]

theorem socketCount_le (sockets : Nat → Socket) (type : Nat) :
    socketCount sockets type ≤ maxSockets := by
  refine List.countP_le_length.trans ?_
  rw [List.length_range]

theorem generateCpuinfo_length (k : ProcfsKernel) :
    (generateCpuinfo k).length ≤ procfsBufferSize := by
  have vendor : (cString k.cpuid.vendor).length ≤ 12 := by
    rw [← k.cpuid.name]
    exact (List.takeWhile_prefix _).length_le
  rw [generateCpuinfo, List.length_append, List.length_append, cpuFlags]
  simp only [List.cons_append, List.nil_append]
  apply Nat.le_trans (Nat.add_le_add (Nat.add_le_add (?_ : _ ≤ 100) vendor) (?_ : _ ≤ 1000))
    (by decide)
  · apply written_within
    · repeat' first
        | exact .nil
        | apply List.Forall₂.cons
        | with_reducible apply Piece.text_most
    · decide
  · apply written_within
    · repeat' first
        | exact .nil
        | apply List.Forall₂.cons
        | with_reducible apply Piece.text_most
        | with_reducible apply Piece.flag_most
        | with_reducible apply Piece.number_most
    · decide

theorem ProcfsKernel.date_most (k : ProcfsKernel) : (Piece.text k.date).most ≤ 11 :=
  Nat.le_of_eq k.dateLength

theorem ProcfsKernel.time_most (k : ProcfsKernel) : (Piece.text k.time).most ≤ 8 :=
  Nat.le_of_eq k.timeLength

theorem generateNetArp_length (k : ProcfsKernel) :
    (generateNetArp k).length ≤ procfsBufferSize := by
  have line : ∀ i ∈ List.range 32, (match arpGetEntry k.arpCache i with
      | some entry => if entry.ip ≠ 0 then arpLine entry else []
      | none => [] : List UInt8).length ≤ 59 := by
    intro i _
    split
    · split
      · exact Nat.le_of_eq (arpLine_length _)
      · exact Nat.zero_le _
    · exact Nat.zero_le _
  have header :
      (ascii "IP address       HW type  Flags  HW address            Device\n").length = 62 :=
    ascii_length.trans String.length_ofList
  have lines := List.sum_le_card_nsmul ((List.range 32).map fun i =>
    (match arpGetEntry k.arpCache i with
      | some entry => if entry.ip ≠ 0 then arpLine entry else []
      | none => [] : List UInt8).length) 59 (by simpa using fun i inside => line i (by simpa using inside))
  rw [generateNetArp, List.length_append, header, List.length_flatMap]
  rw [List.length_map, List.length_range] at lines
  exact (Nat.add_le_add_left lines 62).trans (by decide)

theorem generateNetRoute_length (k : ProcfsKernel) :
    (generateNetRoute k).length ≤ procfsBufferSize := by
  have columns :
      "Iface\tDestination\tGateway \tFlags\tRefCnt\tUse\tMetric\tMask\t\tMTU\t".length = 61 :=
    String.length_ofList
  have last : "Window\tIRTT\n".length = 12 := String.length_ofList
  have front := written_length_le
    [.text ("Iface\tDestination\tGateway \tFlags\tRefCnt\tUse\tMetric\tMask\t\tMTU\t" ++
      "Window\tIRTT\n")]
  simp only [most, Piece.most, List.map_cons, List.map_nil, List.sum_cons, List.sum_nil,
    String.length_append, columns, last] at front
  rw [generateNetRoute, List.length_append]
  apply Nat.le_trans (Nat.add_le_add front (?_ : _ ≤ 200)) (by decide)
  cases k.netif with
  | none => exact Nat.zero_le _
  | some netif =>
      dsimp only
      split
      · refine (written_length_le _).trans ?_
        simp only [most, Piece.most, List.map_cons, List.map_nil, List.sum_cons, List.sum_nil]
        decide
      · exact Nat.zero_le _

theorem written_fits {pieces : List Piece} (small : most pieces ≤ procfsBufferSize) :
    (written pieces).length ≤ procfsBufferSize := (written_length_le pieces).trans small

theorem generateNetDev_length (k : ProcfsKernel) :
    (generateNetDev k).length ≤ procfsBufferSize := by
  have groups :
      "Inter-|   Receive                                                |  Transmit\n".length = 77 :=
    String.length_ofList
  have received :
      " face |bytes    packets errs drop fifo frame compressed multicast|".length = 66 :=
    String.length_ofList
  have sent : "bytes    packets errs drop fifo colls carrier compressed\n".length = 57 :=
    String.length_ofList
  have loopback :
      "    lo:       0       0    0    0    0     0          0         0  ".length = 67 :=
    String.length_ofList
  have ethernet :
      "  eth0:       0       0    0    0    0     0          0         0  ".length = 67 :=
    String.length_ofList
  have zeros : "      0       0    0    0    0     0       0          0\n".length = 56 :=
    String.length_ofList
  refine written_fits ?_
  simp only [most, Piece.most, List.map_cons, List.map_nil, List.sum_cons, List.sum_nil,
    String.length_append, groups, received, sent, loopback, ethernet, zeros]
  decide

/-- The texts about sockets fit as long as there are not too many, and all others do. -/
theorem procfsGenerate_fits_iff (k : ProcfsKernel) (type : Nat) :
    (∀ text, procfsGenerate k type = some text → text.length ≤ procfsBufferSize) ↔
      (type = 18 → socketCount k.sockets sockStream ≤ 27) ∧
      (type = 19 → socketCount k.sockets sockDgram ≤ 27) := by
  by_cases tcp : type = 18
  · subst tcp
    have length := generateNetTcp_length k
    constructor
    · intro fits
      refine ⟨fun _ => ?_, fun other => by cases other⟩
      have bound : (generateNetTcp k).length ≤ 2048 := fits _ rfl
      omega
    · rintro ⟨few, -⟩ text isText
      have bound := few rfl
      obtain rfl := Option.some.inj isText
      change (generateNetTcp k).length ≤ 2048
      omega
  by_cases udp : type = 19
  · subst udp
    have length := generateNetUdp_length k
    constructor
    · intro fits
      refine ⟨fun other => absurd other (by decide), fun _ => ?_⟩
      have bound : (generateNetUdp k).length ≤ 2048 := fits _ rfl
      omega
    · rintro ⟨-, few⟩ text isText
      have bound := few rfl
      obtain rfl := Option.some.inj isText
      change (generateNetUdp k).length ≤ 2048
      omega
  refine iff_of_true (fun text isText => ?_) ⟨fun is => absurd is tcp, fun is => absurd is udp⟩
  unfold procfsGenerate at isText
  split at isText
  case h_3 => exact Option.some.inj isText ▸ generateCpuinfo_length k
  case h_15 => exact Option.some.inj isText ▸ generateNetArp_length k
  case h_16 => exact Option.some.inj isText ▸ generateNetDev_length k
  case h_17 => exact Option.some.inj isText ▸ generateNetRoute_length k
  case h_18 => exact absurd rfl tcp
  case h_19 => exact absurd rfl udp
  case h_20 => cases isText
  case h_11 | h_12 | h_13 =>
    obtain rfl := Option.some.inj isText
    rw [ascii_length, String.length_ofList]
    decide
  all_goals
    obtain rfl := Option.some.inj isText
    apply written_within
    · repeat' first
        | exact .nil
        | apply List.Forall₂.cons
        | with_reducible apply Piece.text_most
        | with_reducible apply Piece.flag_most
        | with_reducible apply Piece.number_most
        | with_reducible apply ProcfsKernel.date_most
        | with_reducible apply ProcfsKernel.time_most
    · decide

/-- No text has more than a line for each index. -/
theorem procfsGenerate_small (isText : procfsGenerate k type = some text) : text.length ≤ 2359 := by
  have fits := (procfsGenerate_fits_iff k type).mpr
  by_cases tcp : type = 18
  · subst tcp
    obtain rfl := Option.some.inj isText
    have most := socketCount_le k.sockets sockStream
    have length := generateNetTcp_length k
    have bound : socketCount k.sockets sockStream ≤ 32 := most
    omega
  by_cases udp : type = 19
  · subst udp
    obtain rfl := Option.some.inj isText
    have most := socketCount_le k.sockets sockDgram
    have length := generateNetUdp_length k
    have bound : socketCount k.sockets sockDgram ≤ 32 := most
    omega
  · have bound : text.length ≤ 2048 :=
      fits ⟨fun is => absurd is tcp, fun is => absurd is udp⟩ text isText
    omega

end Lengths

section Reads

theorem int32_cases {value : Nat} (word : value < 4294967296) :
    value < 2147483648 ∧ int32 value = value ∨
      2147483648 ≤ value ∧ int32 value = (value : Int) - 4294967296 := by
  rw [int32, u32_eq_of_lt word]
  split
  · exact .inl ⟨by assumption, rfl⟩
  · exact .inr ⟨by omega, rfl⟩

theorem copied_outside {count : Nat} (word : offset < 4294967296) (behind : len ≤ offset) :
    (∀ position ∈ copied offset count, position < len) ↔ count = 0 := by
  constructor
  · intro inside
    by_contra some
    have first := inside offset (mem_copied.mpr ⟨0, by omega, u32_eq_of_lt (by omega)⟩)
    omega
  · rintro rfl position member
    obtain ⟨i, none, -⟩ := mem_copied.mp member
    omega

theorem read_inside (isText : procfsGenerate k type = some text) (offsetWord : offset < 4294967296)
    (sizeWord : size < 4294967296) :
    (∀ position ∈ (procfsDynamicRead k type offset size).2, position < text.length) ↔
      ReadInside text.length offset size := by
  have small := procfsGenerate_small isText
  simp only [procfsDynamicRead, isText, ReadInside]
  rcases int32_cases offsetWord with ⟨low, isOffset⟩ | ⟨high, isOffset⟩
  · rw [isOffset]
    by_cases past : text.length ≤ offset
    · rw [if_pos (by omega)]
      simp [past, low]
    · have left : u32 (text.length + 4294967296 - offset) = text.length - offset := by
        rw [u32]
        omega
      have isLeft : int32 (text.length - offset) = ((text.length - offset : Nat) : Int) :=
        int32_eq_of_lt (by omega)
      rw [if_neg (by omega), left, isLeft]
      rcases int32_cases sizeWord with ⟨lowSize, isSize⟩ | ⟨highSize, isSize⟩
      · refine iff_of_true ?_ (.inl ⟨low, .inr lowSize⟩)
        rw [isSize]
        have count : ((if (size : Int) < ((text.length - offset : Nat) : Int) then (size : Int)
            else ((text.length - offset : Nat) : Int)) % 4294967296).toNat ≤ text.length - offset := by
          split <;> omega
        exact copied_below (by omega) (by omega)
      · rw [isSize, if_pos (by omega)]
        have count : (((size : Int) - 4294967296) % 4294967296).toNat = size := by omega
        rw [count]
        refine iff_of_false (fun inside => ?_) (by omega)
        have last := inside text.length
          (mem_copied.mpr ⟨text.length - offset, by omega, by rw [u32_eq_of_lt] <;> omega⟩)
        omega
  · rw [isOffset, if_neg (by omega), copied_outside offsetWord (by omega)]
    have left : u32 (text.length + 4294967296 - offset) = text.length + (4294967296 - offset) := by
      rw [u32]
      omega
    rw [left]
    rcases int32_cases (show text.length + (4294967296 - offset) < 4294967296 by omega) with
      ⟨lowLeft, isLeft⟩ | ⟨highLeft, isLeft⟩ <;>
    rcases int32_cases sizeWord with ⟨lowSize, isSize⟩ | ⟨highSize, isSize⟩ <;>
    rw [isLeft, isSize] <;> split <;> omega

end Reads

/-- A text is generated inside the buffer and a read copies it and no more exactly if there are
not too many sockets for it and the arguments are not taken for negative ones. -/
theorem procfs_inside_iff (k : ProcfsKernel) (type : Nat) (offsetWord : offset < 4294967296)
    (sizeWord : size < 4294967296) :
    (∀ text, procfsGenerate k type = some text → text.length ≤ procfsBufferSize ∧
      ∀ position ∈ (procfsDynamicRead k type offset size).2, position < text.length) ↔
    (type = 18 → socketCount k.sockets sockStream ≤ 27) ∧
      (type = 19 → socketCount k.sockets sockDgram ≤ 27) ∧
      ∀ text, procfsGenerate k type = some text → ReadInside text.length offset size := by
  have fits := procfsGenerate_fits_iff k type
  constructor
  · intro all
    obtain ⟨tcp, udp⟩ := fits.mp fun text isText => (all text isText).1
    exact ⟨tcp, udp, fun text isText =>
      (read_inside isText offsetWord sizeWord).mp (all text isText).2⟩
  · rintro ⟨tcp, udp, reads⟩ text isText
    exact ⟨fits.mpr ⟨tcp, udp⟩ text isText,
      (read_inside isText offsetWord sizeWord).mpr (reads text isText)⟩

/-- A kernel with these sockets, and nothing else. -/
def kernelWith (sockets : Nat → Socket) : ProcfsKernel :=
  { totalMemory := 0, freeMemory := 0, ticks := 0, cpuid := ⟨List.replicate 12 0x61, 0, 0, 0, rfl⟩
    currentPid := none, taskCount := 0, arpCache := fun _ => ⟨0, fun _ => 0, false⟩, netif := none
    sockets, date := "Jan  1 2026", time := "00:00:00", dateLength := by decide
    timeLength := by decide }

theorem procfs_inside_iff_cmdline :
    ∃ text, procfsGenerate (kernelWith fun _ => Socket.zero) 5 = some text ∧
      text.length ≤ procfsBufferSize ∧ ∀ position ∈
        (procfsDynamicRead (kernelWith fun _ => Socket.zero) 5 4 100).2, position < text.length := by
  have some : (procfsGenerate (kernelWith fun _ => Socket.zero) 5).isSome := by decide
  obtain ⟨text, isText⟩ := Option.isSome_iff_exists.mp some
  refine ⟨text, isText, (procfs_inside_iff (kernelWith fun _ => Socket.zero) 5 (by decide)
    (by decide)).mpr ⟨fun is => absurd is (by decide), fun is => absurd is (by decide), ?_⟩ text isText⟩
  exact fun _ _ => .inl ⟨by decide, .inr (by decide)⟩

/-- The call of `socket` takes the first slot that is free. -/
theorem socketCreate_first {s : Net} {n : Nat} (room : n < maxSockets)
    (used : ∀ i, (s.sockets i).inUse = decide (i < n)) :
    (socketCreate s afInet sockDgram).2 = s.setSocket n
      { Socket.zero with
        inUse := true, type := sockDgram, domain := afInet, protocol := ipProtoUdp } := by
  have first : ((List.range maxSockets).find? fun i => !(s.sockets i).inUse) = some n :=
    List.find?_range_eq_some.mpr ⟨by simp [used], List.mem_range.mpr room, by
      intro i before
      simp [used, before]⟩
  rw [socketCreate, if_neg (by decide), if_neg (by decide), first]
  rfl

/-- As many sockets are in use as calls of `socket` were made. -/
theorem sockets_created {n : Nat} (room : n ≤ maxSockets) (netifIp : Nat) (memory : Nat → Nat) :
    ∀ i, ((((List.replicate n ()).foldl (fun s _ => (socketCreate s afInet sockDgram).2)
        (Net.start netifIp memory)).sockets i).inUse = decide (i < n)) ∧
      (i < n → (((List.replicate n ()).foldl (fun s _ => (socketCreate s afInet sockDgram).2)
        (Net.start netifIp memory)).sockets i).type = sockDgram) := by
  induction n with
  | zero => exact fun i => ⟨by simp [Net.start, Socket.zero], fun inside => absurd inside i.not_lt_zero⟩
  | succ n ih =>
      have before := ih (Nat.le_of_succ_le room)
      rw [List.replicate_succ', List.foldl_append, List.foldl_cons, List.foldl_nil,
        socketCreate_first room fun i => (before i).1]
      intro i
      by_cases new : i = n
      · simp [Net.setSocket, new]
      · obtain ⟨used, isType⟩ := before i
        simp only [Net.setSocket, if_neg new]
        refine ⟨used.trans (decide_eq_decide.mpr (by omega)), fun inside => isType (by omega)⟩

/-- After 28 calls of `socket` the text about UDP runs over the end of the buffer, and a read at
the last offset copies what stands before it. -/
theorem procfs_outside :
    (procfsGenerate (kernelWith ((List.replicate 28 ()).foldl
        (fun s _ => (socketCreate s afInet sockDgram).2) (Net.start 0 fun _ => 0)).sockets) 19).map
      List.length = some 2071 ∧
    (procfsDynamicRead (kernelWith fun _ => Socket.zero) 13 4294967295 1).2 = [4294967295] := by
  constructor
  · have created := sockets_created (n := 28) (by decide) 0 fun _ => 0
    generalize ((List.replicate 28 ()).foldl
      (fun s _ => (socketCreate s afInet sockDgram).2) (Net.start 0 fun _ => 0)).sockets = sockets
      at created ⊢
    have count : socketCount sockets sockDgram = 28 := by
      have inside : ∀ i ∈ List.range maxSockets,
          ((sockets i).inUse && decide ((sockets i).type = sockDgram)) = true ↔
            decide (i < 28) = true := by
        intro i _
        rw [(created i).1, Bool.and_eq_true, and_iff_left_iff_imp, decide_eq_true_eq,
          decide_eq_true_eq]
        exact (created i).2
      rw [socketCount, List.countP_congr inside]
      decide
    have length := generateNetUdp_length (kernelWith sockets)
    have same : (kernelWith sockets).sockets = sockets := rfl
    rw [same, count] at length
    exact congrArg some length
  · decide

end ZurichOS
