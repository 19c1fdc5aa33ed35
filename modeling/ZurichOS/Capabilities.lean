import Mathlib.Logic.Function.Basic
import ZurichOS.Transitions

/-!
The capability sets of `kernel/security/capabilities.c`, and when a process is handed only
what its parent still has.
-/

namespace ZurichOS

open Transitions

abbrev maxCapProcesses : Nat := 256
abbrev capAll : BitVec 64 := 0xFFFFFFFFFFFFFFFF
abbrev capKill : BitVec 64 := 1 <<< 2

structure ProcessCaps where
  effective : BitVec 64
  permitted : BitVec 64
  inheritable : BitVec 64

abbrev Capabilities := Nat → ProcessCaps

def capabilitiesInit : Capabilities := fun pid =>
  if pid = 0 ∨ pid = 1 then ⟨capAll, capAll, capAll⟩ else ⟨0, 0, 0⟩

def capabilitySet (s : Capabilities) (pid : Nat) (caps : BitVec 64) : Int × Capabilities :=
  if maxCapProcesses ≤ pid then (-1, s)
  else (0, Function.update s pid { s pid with effective := caps &&& (s pid).permitted })

def capabilityDrop (s : Capabilities) (pid : Nat) (cap : BitVec 64) : Int × Capabilities :=
  if maxCapProcesses ≤ pid then (-1, s)
  else (0, Function.update s pid { s pid with
    effective := (s pid).effective &&& ~~~cap
    permitted := (s pid).permitted &&& ~~~cap })

def capabilityInherit (s : Capabilities) (parentPid childPid : Nat) : Capabilities :=
  if maxCapProcesses ≤ parentPid ∨ maxCapProcesses ≤ childPid then s
  else
    let inheritable := (s parentPid).inheritable
    Function.update s childPid ⟨inheritable, inheritable, inheritable⟩

def capabilityClear (s : Capabilities) (pid : Nat) : Capabilities :=
  if maxCapProcesses ≤ pid then s else Function.update s pid ⟨0, 0, 0⟩

inductive CapCall where
  | set (pid : Nat) (caps : BitVec 64)
  | drop (pid : Nat) (cap : BitVec 64)
  | inherit (parentPid childPid : Nat)
  | clear (pid : Nat)

/-- The capability sets, with what each process has dropped since it was created. -/
structure Delegation where
  caps : Capabilities
  dropped : Nat → BitVec 64

def Delegation.boot : Delegation := ⟨capabilitiesInit, fun _ => 0⟩

def capStep (s : Delegation) : CapCall → Delegation
  | .set pid caps => { s with caps := (capabilitySet s.caps pid caps).2 }
  | .drop pid cap =>
      { caps := (capabilityDrop s.caps pid cap).2
        dropped := if maxCapProcesses ≤ pid then s.dropped
          else Function.update s.dropped pid (s.dropped pid ||| cap) }
  | .inherit parent child =>
      { caps := capabilityInherit s.caps parent child
        dropped := if maxCapProcesses ≤ parent ∨ maxCapProcesses ≤ child then s.dropped
          else Function.update s.dropped child 0 }
  | .clear pid => { s with caps := capabilityClear s.caps pid }

def ProcessCaps.held (caps : ProcessCaps) : BitVec 64 := caps.effective ||| caps.permitted

def Within (caps bound : BitVec 64) : Prop := caps &&& ~~~bound = 0

/-- What a call may give to a process that did not hold it: an inherit, what its parent has. -/
def CapCall.given (s : Capabilities) (pid : Nat) : CapCall → BitVec 64
  | .inherit parent child => if child = pid then (s parent).permitted else 0
  | _ => 0

/-- The sets after a call: the effective sets within the permitted ones, no capability held
that was not held before or given, and nothing handed to a child that its parent dropped. -/
structure Delegated (s : Delegation) (call : CapCall) : Prop where
  effective : ∀ pid < maxCapProcesses,
    Within ((capStep s call).caps pid).effective ((capStep s call).caps pid).permitted
  held : ∀ pid < maxCapProcesses, Within ((capStep s call).caps pid).held
    ((s.caps pid).held ||| call.given s.caps pid)
  dropped : ∀ parent child, call = .inherit parent child → parent < maxCapProcesses →
    child < maxCapProcesses →
    ((capStep s call).caps child).held &&& s.dropped parent = 0

/-- An inherit finds the parent's inheritable set within what the parent is permitted and
what the child already holds, apart from what the parent has dropped. -/
def CapCareful (s : Delegation) : CapCall → Prop
  | .inherit parent child => parent < maxCapProcesses → child < maxCapProcesses →
      Within (s.caps parent).inheritable
        ((s.caps parent).permitted ||| ((s.caps child).held &&& ~~~s.dropped parent))
  | _ => True

section Bits

variable {first second bound : BitVec 64}

theorem disjoint_iff_bits : first &&& second = 0 ↔
    ∀ bit, first.getLsbD bit = true → second.getLsbD bit = false := by
  constructor
  · intro apart bit has
    have both : (first &&& second).getLsbD bit = false := by rw [apart]; exact BitVec.getLsbD_zero
    rw [BitVec.getLsbD_and, has, Bool.true_and] at both
    exact both
  · intro apart
    refine BitVec.eq_of_getLsbD_eq fun bit _ => ?_
    rw [BitVec.getLsbD_and]
    cases has : first.getLsbD bit with
    | false => simp
    | true => simp [apart bit has]

theorem within_iff_bits : Within first bound ↔
    ∀ bit, first.getLsbD bit = true → bound.getLsbD bit = true := by
  unfold Within
  rw [disjoint_iff_bits]
  refine forall_congr' fun bit => forall_congr' fun has => ?_
  have inside : bit < 64 := BitVec.lt_of_getLsbD has
  simp [inside]

theorem within_refl (caps : BitVec 64) : Within caps caps := within_iff_bits.mpr fun _ has => has

theorem within_or_left (within : Within first bound) (more : BitVec 64) :
    Within first (bound ||| more) := by
  rw [within_iff_bits] at within ⊢
  intro bit has
  simp [within bit has]

theorem within_and_right (caps bound : BitVec 64) : Within (caps &&& bound) bound := by
  refine within_iff_bits.mpr fun bit has => ?_
  rw [BitVec.getLsbD_and, Bool.and_eq_true] at has
  exact has.2

theorem within_zero (bound : BitVec 64) : Within 0 bound := BitVec.zero_and

theorem without_bit (caps cap : BitVec 64) (bit : Nat) :
    (caps &&& ~~~cap).getLsbD bit = true ↔ caps.getLsbD bit = true ∧ cap.getLsbD bit = false := by
  by_cases inside : bit < 64
  · simp [inside]
  · simp [BitVec.getLsbD_of_ge caps bit (by omega)]

theorem within_without (within : Within first bound) (cap : BitVec 64) :
    Within (first &&& ~~~cap) (bound &&& ~~~cap) := by
  rw [within_iff_bits] at within ⊢
  intro bit has
  have both := (without_bit first cap bit).mp has
  exact (without_bit bound cap bit).mpr ⟨within bit both.1, both.2⟩

end Bits

section Steps

variable {s : Delegation}

structure CapKept (s : Delegation) : Prop where
  effective : ∀ pid, Within (s.caps pid).effective (s.caps pid).permitted
  dropped : ∀ pid, (s.caps pid).permitted &&& s.dropped pid = 0

theorem CapKept.held (kept : CapKept s) (pid : Nat) :
    (s.caps pid).held = (s.caps pid).permitted := by
  have within := within_iff_bits.mp (kept.effective pid)
  refine BitVec.eq_of_getLsbD_eq fun bit _ => ?_
  rw [ProcessCaps.held, BitVec.getLsbD_or]
  cases has : (s.caps pid).effective.getLsbD bit with
  | false => simp
  | true => simp [within bit has]

theorem CapKept.boot : CapKept .boot := by
  constructor
  · intro pid
    simp only [Delegation.boot, capabilitiesInit]
    split
    · exact within_refl _
    · exact within_refl _
  · intro pid
    exact BitVec.and_zero

/-- A call replaces the sets of one process at most, with what it drops. -/
theorem CapKept.update (kept : CapKept s) {pid : Nat} {caps : ProcessCaps} {dropped : BitVec 64}
    (effective : Within caps.effective caps.permitted) (apart : caps.permitted &&& dropped = 0) :
    CapKept ⟨Function.update s.caps pid caps, Function.update s.dropped pid dropped⟩ := by
  constructor
  · intro other
    by_cases own : other = pid
    · subst own
      simpa using effective
    · simpa [own] using kept.effective other
  · intro other
    by_cases own : other = pid
    · subst own
      simpa using apart
    · simpa [own] using kept.dropped other

theorem CapKept.replace (kept : CapKept s) {pid : Nat} {caps : ProcessCaps}
    (effective : Within caps.effective caps.permitted)
    (permitted : Within caps.permitted (s.caps pid).permitted) :
    CapKept ⟨Function.update s.caps pid caps, s.dropped⟩ := by
  have apart : caps.permitted &&& s.dropped pid = 0 := by
    have before := disjoint_iff_bits.mp (kept.dropped pid)
    have within := within_iff_bits.mp permitted
    exact disjoint_iff_bits.mpr fun bit has => before bit (within bit has)
  have updated : CapKept ⟨Function.update s.caps pid caps,
      Function.update s.dropped pid (s.dropped pid)⟩ := kept.update effective apart
  rwa [Function.update_eq_self] at updated

theorem capStep_kept (kept : CapKept s) (call : CapCall) : CapKept (capStep s call) := by
  cases call with
  | set pid caps =>
      simp only [capStep, capabilitySet]
      split
      · exact kept
      · exact kept.replace (within_and_right caps _) (within_refl _)
  | drop pid cap =>
      simp only [capStep, capabilityDrop]
      split
      · exact kept
      · refine kept.update (within_without (kept.effective pid) cap) ?_
        refine disjoint_iff_bits.mpr fun bit has => ?_
        have both := (without_bit _ cap bit).mp has
        rw [BitVec.getLsbD_or, disjoint_iff_bits.mp (kept.dropped pid) bit both.1, both.2]
        rfl
  | inherit parent child =>
      simp only [capStep, capabilityInherit]
      split
      · exact kept
      · exact kept.update (within_refl _) BitVec.and_zero
  | clear pid =>
      simp only [capStep, capabilityClear]
      split
      · exact kept
      · exact kept.replace (within_refl _) (within_zero _)

/-- What a process holds after a call that is no inherit into it, it held before. -/
theorem capStep_held (kept : CapKept s) (call : CapCall) (pid : Nat)
    (other : ∀ parent, call ≠ .inherit parent pid) :
    Within ((capStep s call).caps pid).held (s.caps pid).held := by
  rw [(capStep_kept kept call).held, kept.held]
  cases call with
  | set target caps =>
      simp only [capStep, capabilitySet]
      split
      · exact within_refl _
      · by_cases own : pid = target
        · subst own
          simpa using within_refl _
        · simpa [own] using within_refl _
  | drop target cap =>
      simp only [capStep, capabilityDrop]
      split
      · exact within_refl _
      · by_cases own : pid = target
        · subst own
          refine within_iff_bits.mpr fun bit has => ?_
          simp only [Function.update_self] at has
          exact ((without_bit _ cap bit).mp has).1
        · simpa [own] using within_refl _
  | inherit parent child =>
      simp only [capStep, capabilityInherit]
      have own : pid ≠ child := fun same => other parent (same ▸ rfl)
      split
      · exact within_refl _
      · simpa [own] using within_refl _
  | clear target =>
      simp only [capStep, capabilityClear]
      split
      · exact within_refl _
      · by_cases own : pid = target
        · subst own
          simpa using within_zero _
        · simpa [own] using within_refl _

/-- After an inherit the child holds what is inheritable from the parent. -/
theorem capInherit_held {parent child : Nat} (parentBound : parent < maxCapProcesses)
    (childBound : child < maxCapProcesses) :
    ((capStep s (.inherit parent child)).caps child).held = (s.caps parent).inheritable := by
  have bounds : ¬ (maxCapProcesses ≤ parent ∨ maxCapProcesses ≤ child) := by omega
  simp [capStep, capabilityInherit, bounds, ProcessCaps.held]

theorem delegated_of_held (kept : CapKept s) (call : CapCall)
    (other : ∀ parent child, call = .inherit parent child →
      maxCapProcesses ≤ parent ∨ maxCapProcesses ≤ child) : Delegated s call := by
  refine ⟨fun pid _ => (capStep_kept kept call).effective pid, fun pid _ => ?_, ?_⟩
  · by_cases into : ∃ parent, call = .inherit parent pid
    · obtain ⟨parent, rfl⟩ := into
      simp only [capStep, capabilityInherit, if_pos (other parent pid rfl)]
      exact within_or_left (within_refl _) _
    · exact within_or_left (capStep_held kept call pid fun parent same => into ⟨parent, same⟩) _
  · intro parent child isInherit parentBound childBound
    have outside := other parent child isInherit
    omega

/-- The part of the property an inherit can break, bit by bit. -/
theorem inherit_delegated_iff (kept : CapKept s) {parent child : Nat}
    (parentBound : parent < maxCapProcesses) (childBound : child < maxCapProcesses) :
    Delegated s (.inherit parent child) ↔
      Within (s.caps parent).inheritable ((s.caps child).held ||| (s.caps parent).permitted) ∧
        (s.caps parent).inheritable &&& s.dropped parent = 0 := by
  have after := capInherit_held (s := s) parentBound childBound
  constructor
  · intro sound
    have held := sound.held child childBound
    have dropped := sound.dropped parent child rfl parentBound childBound
    rw [after] at held dropped
    simp only [CapCall.given, if_true] at held
    exact ⟨held, dropped⟩
  · rintro ⟨within, apart⟩
    refine ⟨fun pid _ => (capStep_kept kept _).effective pid, fun pid _ => ?_, ?_⟩
    · by_cases own : child = pid
      · subst own
        rw [after]
        simpa only [CapCall.given, if_true] using within
      · refine within_or_left (capStep_held kept _ pid fun other same => own ?_) _
        injection same
    · intro other target same _ _
      injection same with sameParent sameChild
      subst sameParent sameChild
      rw [after]
      exact apart

theorem delegated_iff (kept : CapKept s) (call : CapCall) :
    Delegated s call ↔ CapCareful s call := by
  by_cases inherits : ∃ parent child, call = .inherit parent child ∧
    parent < maxCapProcesses ∧ child < maxCapProcesses
  · obtain ⟨parent, child, rfl, parentBound, childBound⟩ := inherits
    have kernel := disjoint_iff_bits.mp (kept.dropped parent)
    rw [inherit_delegated_iff kept parentBound childBound]
    simp only [CapCareful, parentBound, childBound, true_imp_iff, within_iff_bits,
      disjoint_iff_bits, BitVec.getLsbD_or, Bool.or_eq_true, without_bit]
    constructor
    · rintro ⟨within, apart⟩ bit has
      cases within bit has with
      | inl held => exact .inr ⟨held, apart bit has⟩
      | inr permitted => exact .inl permitted
    · intro within
      refine ⟨fun bit has => ?_, fun bit has => ?_⟩
      · cases within bit has with
        | inl permitted => exact .inr permitted
        | inr held => exact .inl held.1
      · cases within bit has with
        | inl permitted => exact kernel bit permitted
        | inr held => exact held.2
  · have outside : ∀ parent child, call = .inherit parent child →
        maxCapProcesses ≤ parent ∨ maxCapProcesses ≤ child := by
      intro parent child same
      by_contra bounds
      exact inherits ⟨parent, child, same, by omega, by omega⟩
    refine iff_of_true (delegated_of_held kept call outside) ?_
    cases call with
    | inherit parent child =>
        intro parentBound childBound
        have bounds := outside parent child rfl
        omega
    | set | drop | clear => trivial

end Steps

theorem capability_delegation (calls : List CapCall) :
    Along capStep Delegated .boot calls ↔ Along capStep CapCareful .boot calls :=
  along_congr CapKept (fun _ call kept _ => capStep_kept kept call)
    (fun _ call kept => delegated_iff kept call) CapKept.boot calls

/-- The kernel process gives up `CAP_KILL`, and a process created from it has it. -/
theorem dropped_capability_inherited : ¬ ∀ calls, Along capStep Delegated .boot calls := by
  intro all
  have sound := all [.drop 0 capKill, .inherit 0 5]
  have apart := sound.2.1.dropped 0 5 rfl (by decide) (by decide)
  exact absurd apart (by decide)

end ZurichOS
