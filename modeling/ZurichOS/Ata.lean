import ZurichOS.FatCore

/-!
Disk commands of `kernel/drivers/ata/ata.c`: what `ata_identify` takes for the size of a drive, and
the registers that `ata_read_sectors` and `ata_write_sectors` program.
-/

namespace ZurichOS

open Words

abbrev ataTypeAta : Nat := 1
abbrev ataCmdReadPio : Nat := 0x20
abbrev ataCmdWritePio : Nat := 0x30
abbrev ataCmdCacheFlush : Nat := 0xE7

structure AtaDrive where
  present : Bool
  type : Nat
  drive : Nat
  sectors : Nat
  sectors48 : Nat
  lba48 : Bool

/-- The end of `ata_identify`, on the words that the drive sends. -/
def ataIdentify (type drive : Nat) (identifyData : Nat → BitVec 16) : AtaDrive :=
  let word i := (identifyData i).toNat
  if word 83 &&& 1 <<< 10 ≠ 0 then
    let sectors48 := word 103 <<< 48 ||| word 102 <<< 32 ||| word 101 <<< 16 ||| word 100
    { present := true, type, drive, lba48 := true, sectors48
      sectors := if 0xFFFFFFFF < sectors48 then 0xFFFFFFFF else sectors48 }
  else
    let sectors := word 61 <<< 16 ||| word 60
    { present := true, type, drive, lba48 := false, sectors, sectors48 := sectors }

/-- The task-file registers of a channel. -/
structure AtaRegisters where
  drive : Nat
  secCount : Nat
  lbaLo : Nat
  lbaMid : Nat
  lbaHi : Nat

/-- A command, with the registers when it was issued. -/
structure AtaCommand where
  code : Nat
  registers : AtaRegisters

/-- The sectors that the registers designate; a count of 0 stands for 256. -/
def AtaRegisters.designated (r : AtaRegisters) : List Nat :=
  let start := r.drive % 16 * 16777216 + r.lbaHi * 65536 + r.lbaMid * 256 + r.lbaLo
  (List.range (if r.secCount = 0 then 256 else r.secCount)).map (start + ·)

/-- The answers of the drive: whether it gets ready for a command, and for each sector. -/
structure AtaAnswers where
  ready : Bool
  drq : Nat → Bool

/-- The registers for the sectors from `lba` on. -/
def ataProgram (drive : AtaDrive) (lba count : Nat) : AtaRegisters where
  drive := 0xE0 ||| drive.drive <<< 4 ||| (lba >>> 24 &&& 0x0F)
  secCount := count
  lbaLo := lba &&& 0xFF
  lbaMid := lba >>> 8 &&& 0xFF
  lbaHi := lba >>> 16 &&& 0xFF

/-- What the two functions have in common: the result, and the commands in their order. -/
def ataTransfer (code : Nat) (drives : Nat → AtaDrive) (answers : AtaAnswers) (driveIdx : Int)
    (lba count : Nat) : Int × List AtaCommand :=
  if driveIdx < 0 ∨ 4 ≤ driveIdx then (-1, [])
  else
    let drive := drives driveIdx.toNat
    if drive.present = false then (-1, [])
    else if drive.type ≠ ataTypeAta then (-2, [])
    else if answers.ready = false then (-3, [])
    else
      let command := ⟨code, ataProgram drive lba count⟩
      if (List.range count).any fun s => !answers.drq s then (-4, [command]) else (count, [command])

def ataReadSectors (drives : Nat → AtaDrive) (answers : AtaAnswers) (driveIdx : Int)
    (lba count : Nat) : Int × List AtaCommand :=
  ataTransfer ataCmdReadPio drives answers driveIdx lba count

/-- After its sectors, a write flushes the cache of the drive. -/
def ataWriteSectors (drives : Nat → AtaDrive) (answers : AtaAnswers) (driveIdx : Int)
    (lba count : Nat) : Int × List AtaCommand :=
  match ataTransfer ataCmdWritePio drives answers driveIdx lba count with
  | (.ofNat n, commands) =>
      let drive := drives driveIdx.toNat
      let registers := { ataProgram drive lba count with drive := 0xE0 ||| drive.drive <<< 4 }
      (.ofNat n, commands ++ [⟨ataCmdCacheFlush, registers⟩])
  | failed => failed

inductive AtaCall where
  | read
  | write

def AtaCall.run (call : AtaCall) (drives : Nat → AtaDrive) (answers : AtaAnswers) (driveIdx : Int)
    (lba count : Nat) : Int × List AtaCommand :=
  match call with
  | read => ataReadSectors drives answers driveIdx lba count
  | write => ataWriteSectors drives answers driveIdx lba count

def AtaCall.code : AtaCall → Nat
  | read => ataCmdReadPio
  | write => ataCmdWritePio

/-- A call that succeeds has designated the sectors asked for, all of the drive; a call for others
fails and issues no command. -/
structure AtaAddressed (drive : AtaDrive) (call : AtaCall) (lba count : Nat)
    (result : Int × List AtaCommand) : Prop where
  designated : result.1 = count → lba + count ≤ drive.sectors48 ∧
    ∀ command ∈ result.2, command.code = call.code →
      command.registers.designated = (List.range count).map (lba + ·)
  refused : drive.sectors48 < lba + count → result.1 < 0 ∧ result.2 = []

section Registers

variable {drive : AtaDrive} {lba count : Nat}

theorem ataProgram_designated (unit : drive.drive < 2) (positive : 0 < count) :
    (ataProgram drive lba count).designated =
      (List.range count).map (lba % ataAddressable + ·) := by
  have low : ∀ n, n &&& 0xFF = n % 256 := fun n => Nat.and_two_pow_sub_one_eq_mod n 8
  have nibble : ∀ n, n &&& 0x0F = n % 16 := fun n => Nat.and_two_pow_sub_one_eq_mod n 4
  have select : ∀ n, (0xE0 ||| drive.drive <<< 4 ||| n % 16) % 16 = n % 16 := by
    intro n
    have table : ∀ unit < 2, ∀ part < 16, (0xE0 ||| unit <<< 4 ||| part) % 16 = part := by decide
    exact table _ unit _ (Nat.mod_lt _ (by decide))
  unfold AtaRegisters.designated ataProgram
  dsimp only
  rw [if_neg (by omega), nibble, select, low, low, low]
  simp only [Nat.shiftRight_eq_div_pow]
  congr 1
  funext k
  change _ = lba % 268435456 + k
  omega

theorem range_shift_iff (positive : 0 < count) {first second : Nat} :
    (List.range count).map (first + ·) = (List.range count).map (second + ·) ↔ first = second := by
  constructor
  · intro same
    have heads := congrArg List.head? same
    obtain ⟨more, rfl⟩ : ∃ more, count = more + 1 := ⟨count - 1, by omega⟩
    rw [List.range_succ_eq_map] at heads
    simpa using heads
  · rintro rfl
    rfl

end Registers

section Calls

variable {drives : Nat → AtaDrive} {answers : AtaAnswers} {driveIdx : Int} {drive : AtaDrive}
  {lba count : Nat}

theorem ataRun_cases (call : AtaCall) (inside : 0 ≤ driveIdx ∧ driveIdx < 4)
    (isDrive : drives driveIdx.toNat = drive) (present : drive.present = true)
    (isAta : drive.type = ataTypeAta) :
    (answers.ready = false ∧ call.run drives answers driveIdx lba count = (-3, [])) ∨
      (answers.ready = true ∧ (∃ s < count, answers.drq s = false) ∧
        call.run drives answers driveIdx lba count =
          (-4, [⟨call.code, ataProgram drive lba count⟩])) ∨
      (answers.ready = true ∧ (∀ s < count, answers.drq s = true) ∧
        ∃ later, (∀ command ∈ later, command.code = ataCmdCacheFlush) ∧
          call.run drives answers driveIdx lba count =
            ((count : Int), ⟨call.code, ataProgram drive lba count⟩ :: later)) := by
  have transfer : ∀ code, ataTransfer code drives answers driveIdx lba count =
      if answers.ready = false then (-3, [])
      else if (List.range count).any fun s => !answers.drq s then
        (-4, [⟨code, ataProgram drive lba count⟩])
      else ((count : Int), [⟨code, ataProgram drive lba count⟩]) := by
    intro code
    rw [ataTransfer, if_neg (by omega), isDrive]
    dsimp only
    rw [present, if_neg (by decide), if_neg (not_not.mpr isAta)]
  cases ready : answers.ready with
  | false =>
      left
      refine ⟨rfl, ?_⟩
      cases call <;> simp [AtaCall.run, ataReadSectors, ataWriteSectors, transfer, ready]
  | true =>
      right
      by_cases failing : ((List.range count).any fun s => !answers.drq s) = true
      · left
        have found : ∃ s < count, answers.drq s = false := by simpa using failing
        refine ⟨rfl, found, ?_⟩
        cases call with
        | read =>
            rw [AtaCall.run, ataReadSectors, transfer, ready, if_neg (by decide), if_pos failing]
            rfl
        | write =>
            rw [AtaCall.run, ataWriteSectors, transfer, ready, if_neg (by decide), if_pos failing]
            rfl
      · right
        have all : ∀ s < count, answers.drq s = true := by simpa using failing
        refine ⟨rfl, all, ?_⟩
        cases call with
        | read =>
            refine ⟨[], by simp, ?_⟩
            rw [AtaCall.run, ataReadSectors, transfer, ready, if_neg (by decide), if_neg failing]
            rfl
        | write =>
            refine ⟨[⟨ataCmdCacheFlush, { ataProgram drive lba count with
              drive := 0xE0 ||| drive.drive <<< 4 }⟩], by simp, ?_⟩
            rw [AtaCall.run, ataWriteSectors, transfer, ready, if_neg (by decide), if_neg failing,
              isDrive]
            rfl

/-- A call on an identified disk designates the right sectors exactly if it does not come to a
command, or all its sectors are on the drive and it fails or its address has 28 bits. -/
theorem ata_addressed_iff (call : AtaCall) {unit : Nat} {identifyData : Nat → BitVec 16}
    (identified : drives driveIdx.toNat = ataIdentify ataTypeAta unit identifyData)
    (isUnit : unit < 2) (inside : 0 ≤ driveIdx ∧ driveIdx < 4) (word : lba < 4294967296)
    (positive : 0 < count) :
    AtaAddressed (drives driveIdx.toNat) call lba count
        (call.run drives answers driveIdx lba count) ↔
      answers.ready = false ∨ (lba + count ≤ (drives driveIdx.toNat).sectors48 ∧
        (lba < ataAddressable ∨ ∃ s < count, answers.drq s = false)) := by
  generalize isDrive : drives driveIdx.toNat = drive at identified ⊢
  have present : drive.present = true := by
    rw [identified]
    unfold ataIdentify
    dsimp only
    split <;> rfl
  have isAta : drive.type = ataTypeAta := by
    rw [identified]
    unfold ataIdentify
    dsimp only
    split <;> rfl
  have unitBound : drive.drive < 2 := by
    have same : drive.drive = unit := by
      rw [identified]
      unfold ataIdentify
      dsimp only
      split <;> rfl
    rw [same]
    exact isUnit
  rcases ataRun_cases call inside isDrive present isAta with
    ⟨busy, run⟩ | ⟨ready, failing, run⟩ | ⟨ready, all, later, flush, run⟩
  · rw [run]
    refine iff_of_true ⟨fun same => ?_, fun _ => ⟨by decide, rfl⟩⟩ (.inl busy)
    have negative : (-3 : Int) = count := same
    omega
  · rw [run, ready, or_iff_right (by decide)]
    constructor
    · intro addressed
      refine ⟨?_, .inr failing⟩
      by_contra beyond
      cases (addressed.refused (Nat.lt_of_not_le beyond)).2
    · rintro ⟨fits, _⟩
      refine ⟨fun same => ?_, fun beyond => absurd fits (Nat.not_le.mpr beyond)⟩
      have negative : (-4 : Int) = count := same
      omega
  · have noFailure : ¬ ∃ s < count, answers.drq s = false := by
      rintro ⟨s, below, failing⟩
      rw [all s below] at failing
      cases failing
    rw [run, ready, or_iff_right (by decide), or_iff_left noFailure]
    constructor
    · intro addressed
      obtain ⟨fits, designated⟩ := addressed.designated rfl
      refine ⟨fits, ?_⟩
      have own := designated _ (List.mem_cons_self ..) rfl
      rw [ataProgram_designated unitBound positive, range_shift_iff positive] at own
      have small : lba % 268435456 = lba := own
      change lba < 268435456
      omega
    · rintro ⟨fits, small⟩
      refine ⟨fun _ => ⟨fits, fun command member isCode => ?_⟩,
        fun beyond => absurd fits (Nat.not_le.mpr beyond)⟩
      rcases List.mem_cons.mp member with rfl | isLater
      · rw [ataProgram_designated unitBound positive, Nat.mod_eq_of_lt small]
      · rw [flush command isLater] at isCode
        cases call <;> cases isCode

/-- A drive with 2^29 sectors. -/
def bigDrive : AtaDrive :=
  ataIdentify ataTypeAta 0 fun i => if i = 83 then 0x400#16 else if i = 101 then 0x2000#16 else 0#16

/-- A write to the sector 2^28, which the drive has, goes to the sector 0; and a read behind the
end of the drive is sent to it. -/
theorem ata_loses_address :
    ¬ AtaAddressed bigDrive .write 268435456 1
      (AtaCall.write.run (fun _ => bigDrive) ⟨true, fun _ => true⟩ 0 268435456 1) ∧
    ¬ AtaAddressed bigDrive .read 536870912 1
      (AtaCall.read.run (fun _ => bigDrive) ⟨true, fun _ => true⟩ 0 536870912 1) := by
  constructor
  · intro addressed
    have designated := (addressed.designated rfl).2 _ (List.mem_cons_self ..) rfl
    exact absurd designated (by decide)
  · intro addressed
    cases (addressed.refused (by decide)).2

theorem ata_addressed_iff_first :
    AtaAddressed bigDrive .write 5 2
      (AtaCall.write.run (fun _ => bigDrive) ⟨true, fun _ => true⟩ 0 5 2) := by
  have iff := @ata_addressed_iff (fun _ => bigDrive) ⟨true, fun _ => true⟩ 0 5 2 .write 0 _ rfl
    (by decide) (by decide) (by decide) (by decide)
  exact iff.mpr (.inr ⟨by decide, .inl (by decide)⟩)

end Calls

end ZurichOS
