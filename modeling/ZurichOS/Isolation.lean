import ZurichOS.IsolationCore
import ZurichOS.Transitions

/-!
Whether the I/O bitmap of the task state segment follows the current domain.  One lemma
says for each call when it does; a run is isolated throughout exactly if all its calls
do.
-/

namespace ZurichOS

open Transitions PackedBitmap

/-- With no domain current every port is denied, and a current Ring-1 domain has its own
ports. -/
structure Isolated (s : Isolation) : Prop where
  idle : s.currentDomain = none → ∀ port < iopbAllPorts, test s.tss.iopb port = true
  own : ∀ i, s.currentDomain = some i → (s.domains i).isolationLevel = driverIsolationRing1 →
    ∀ port < iopbAllPorts, test s.tss.iopb port = test (s.domains i).iopb port

def CurrentActive (s : Isolation) : Prop :=
  ∀ i, s.currentDomain = some i → (s.domains i).active = true

/-- The calls after which the bitmap still follows the current domain: none that leaves a
domain, and no change of the ports of the one that runs in Ring 1. -/
def KeepsIsolated (s : Isolation) : IsolationCall → Prop
  | .deactivate => False
  | .destroy domain => ∀ i, domain = some i → (s.domains i).active = true →
      s.currentDomain ≠ some i
  | .execReturn => s.frames = [] ∨ s.ring1Valid = false ∧ (s.frames.head?.any (·.ring1)) = true
  | .ring1Return => s.ring1Valid = false
  | .allowPort domain start count => ∀ i, domain = some i → s.currentDomain = some i →
      (s.domains i).isolationLevel = driverIsolationRing1 →
        ∀ port ∈ portRange start count, test (s.domains i).iopb port = false
  | .denyPort domain start count => ∀ i, domain = some i → s.currentDomain = some i →
      (s.domains i).isolationLevel = driverIsolationRing1 →
        ∀ port ∈ portRange start count, test (s.domains i).iopb port = true
  | .create _ _ _ | .activate _ | .exec _ _ => True

theorem denyAll_test (port : Nat) : test denyAll port = true :=
  test_allOnes (by decide) denyAll port rfl

theorem allowAll_test (port : Nat) : test allowAll port = false := by
  simp [test, allowAll]

theorem foldl_set_test (ports : List Nat) (iopb : Iopb) (port : Nat) :
    test (ports.foldl set iopb) port = (decide (port ∈ ports) || test iopb port) := by
  induction ports generalizing iopb with
  | nil => simp
  | cons first rest ih =>
      rw [List.foldl_cons, ih, test_set (by decide)]
      by_cases same : port = first <;> by_cases later : port ∈ rest <;> simp [same, later]

theorem foldl_clear_test (ports : List Nat) (iopb : Iopb) (port : Nat) :
    test (ports.foldl clear iopb) port = (!decide (port ∈ ports) && test iopb port) := by
  induction ports generalizing iopb with
  | nil => simp
  | cons first rest ih =>
      rw [List.foldl_cons, ih, test_clear (by decide)]
      by_cases same : port = first <;> by_cases later : port ∈ rest <;> simp [same, later]

theorem portRange_lt {start count port : Nat} (member : port ∈ portRange start count) :
    port < iopbAllPorts := by
  obtain ⟨i, _, rfl⟩ := List.mem_map.mp member
  exact Nat.mod_lt _ (by decide)

variable {s : Isolation}

theorem deactivate_not_isolated (s : Isolation) : ¬ Isolated (driverDomainDeactivate s) := by
  intro isolated
  have denied := isolated.idle rfl 0 (by decide)
  exact absurd ((allowAll_test 0).symm.trans denied) (by decide)

theorem Isolated.setDomain (isolated : Isolated s) {i : Nat} (other : s.currentDomain ≠ some i)
    (domain : DriverDomain) : Isolated (s.setDomain i domain) := by
  refine ⟨isolated.idle, fun j current ring1 => ?_⟩
  have apart : j ≠ i := fun same => other (same ▸ current)
  simp only [Isolation.setDomain, if_neg apart] at ring1 ⊢
  exact isolated.own j current ring1

theorem find_inactive {i : Nat}
    (found : ((List.range maxDriverDomains).find? fun i => !(s.domains i).active) = some i) :
    (s.domains i).active = false := by
  have inactive := List.find?_some found
  simpa using inactive

theorem create_isolated (inv : CurrentActive s) (isolated : Isolated s) (name : Option String)
    (isolationLevel stack : Nat) :
    Isolated (driverDomainCreate s name isolationLevel stack).2 := by
  unfold driverDomainCreate
  split
  · exact isolated
  split
  · exact isolated
  rename_i i found
  have other : s.currentDomain ≠ some i := fun current => by
    have active := inv i current
    rw [find_inactive found] at active
    cases active
  have next : Isolated { s with nextDomainId := s.nextDomainId + 1 } :=
    ⟨isolated.idle, isolated.own⟩
  dsimp only
  split
  · split
    · exact next.setDomain other _
    · exact next.setDomain other _
  · exact next.setDomain other _

theorem activate_isolated (isolated : Isolated s) (domain : Option Nat) :
    Isolated (driverDomainActivate s domain) := by
  unfold driverDomainActivate
  split
  · exact isolated
  split
  · exact isolated
  dsimp only
  split
  · refine ⟨fun idle => by simp at idle, fun j current _ port _ => ?_⟩
    cases current
    rfl
  · rename_i i _ ring0
    refine ⟨fun idle => by simp at idle, fun j current ring1 => ?_⟩
    cases current
    exact absurd ring1 ring0

theorem exec_isolated (isolated : Isolated s) (domain : Option Nat) (func : Bool) :
    Isolated (driverDomainExec s domain func) := by
  unfold driverDomainExec
  split
  · exact isolated
  split
  · exact isolated
  · rename_i i _
    have entered := activate_isolated isolated (some i)
    exact ⟨entered.idle, entered.own⟩

/-- New ports for a domain: the bitmap follows only if the domain does not run in Ring 1
or the ports stay the same. -/
theorem setIopb_isolated_iff (isolated : Isolated s) (i : Nat) (iopb : Iopb) :
    Isolated (s.setDomain i { s.domains i with iopb }) ↔
      (s.currentDomain = some i → (s.domains i).isolationLevel = driverIsolationRing1 →
        ∀ port < iopbAllPorts, test iopb port = test (s.domains i).iopb port) := by
  constructor
  · intro after current ring1 port bound
    have copied := after.own i current (by simpa [Isolation.setDomain] using ring1) port bound
    simp only [Isolation.setDomain, if_true] at copied
    exact copied.symm.trans (isolated.own i current ring1 port bound)
  · intro same
    by_cases current : s.currentDomain = some i
    · refine ⟨isolated.idle, fun j currentToo ring1 port bound => ?_⟩
      cases currentToo.symm.trans current
      simp only [Isolation.setDomain, if_true] at ring1 ⊢
      rw [same current ring1 port bound]
      exact isolated.own i current ring1 port bound
    · exact isolated.setDomain current _

theorem allowPort_isolated_iff (isolated : Isolated s) (domain : Option Nat) (start count : Nat) :
    Isolated (driverDomainAllowPort s domain start count) ↔
      KeepsIsolated s (.allowPort domain start count) := by
  cases domain with
  | none => exact iff_of_true isolated fun _ same => by cases same
  | some i =>
      simp only [driverDomainAllowPort, setIopb_isolated_iff isolated, KeepsIsolated,
        Option.some.injEq, forall_eq', foldl_clear_test]
      refine forall₂_congr fun _ _ => ⟨fun same port member => ?_, fun clear port _ => ?_⟩
      · simpa [member] using (same port (portRange_lt member)).symm
      · by_cases member : port ∈ portRange start count
        · simp [clear port member]
        · simp [member]

theorem denyPort_isolated_iff (isolated : Isolated s) (domain : Option Nat) (start count : Nat) :
    Isolated (driverDomainDenyPort s domain start count) ↔
      KeepsIsolated s (.denyPort domain start count) := by
  cases domain with
  | none => exact iff_of_true isolated fun _ same => by cases same
  | some i =>
      simp only [driverDomainDenyPort, setIopb_isolated_iff isolated, KeepsIsolated,
        Option.some.injEq, forall_eq', foldl_set_test]
      refine forall₂_congr fun _ _ => ⟨fun same port member => ?_, fun set port _ => ?_⟩
      · simpa [member] using (same port (portRange_lt member)).symm
      · by_cases member : port ∈ portRange start count
        · simp [set port member]
        · simp [member]

theorem destroy_isolated_iff (isolated : Isolated s) (domain : Option Nat) :
    Isolated (driverDomainDestroy s domain) ↔ KeepsIsolated s (.destroy domain) := by
  cases domain with
  | none => exact iff_of_true isolated fun _ same => by cases same
  | some i =>
      simp only [driverDomainDestroy, KeepsIsolated, Option.some.injEq, forall_eq']
      split
      · rename_i inactive
        have unused : ¬ (s.domains i).active = true := by simpa using inactive
        exact ⟨fun _ active => absurd active unused, fun _ => isolated⟩
      · rename_i used
        have active : (s.domains i).active = true := by simpa using used
        split
        · rename_i current
          refine ⟨fun after => ?_, fun other => absurd current (other active)⟩
          have denied := after.idle rfl 0 (by decide)
          exact absurd ((allowAll_test 0).symm.trans denied) (by decide)
        · rename_i other
          exact ⟨fun _ _ => other, fun _ => isolated.setDomain other _⟩

theorem ring1Return_isolated_iff (isolated : Isolated s) :
    Isolated (ring1Return s) ↔ s.ring1Valid = false := by
  cases valid : s.ring1Valid with
  | false => simp [ring1Return, valid, isolated]
  | true =>
      simp only [ring1Return, valid, Bool.not_true, Bool.false_eq_true, if_false]
      exact ⟨fun after => absurd after (deactivate_not_isolated _), fun off => by cases off⟩

theorem execReturn_isolated_iff (isolated : Isolated s) :
    Isolated (execReturn s) ↔ KeepsIsolated s .execReturn := by
  simp only [execReturn, KeepsIsolated]
  split
  · rename_i empty
    simp [empty, isolated]
  · rename_i frame rest frames
    simp only [frames, List.head?_cons, Option.any_some, reduceCtorEq, false_or]
    cases ring1 : frame.ring1 with
    | true => simp [ring1Return_isolated_iff isolated]
    | false =>
        simp only [Bool.false_eq_true, if_false, and_false, iff_false]
        exact deactivate_not_isolated _

theorem call_isolated_iff (inv : CurrentActive s) (isolated : Isolated s)
    (call : IsolationCall) : Isolated (s.call call) ↔ KeepsIsolated s call := by
  cases call with
  | create name isolationLevel stack =>
      exact iff_of_true (create_isolated inv isolated name isolationLevel stack) trivial
  | destroy domain => exact destroy_isolated_iff isolated domain
  | allowPort domain start count => exact allowPort_isolated_iff isolated domain start count
  | denyPort domain start count => exact denyPort_isolated_iff isolated domain start count
  | activate domain => exact iff_of_true (activate_isolated isolated domain) trivial
  | deactivate => exact iff_of_false (deactivate_not_isolated s) id
  | exec domain func => exact iff_of_true (exec_isolated isolated domain func) trivial
  | execReturn => exact execReturn_isolated_iff isolated
  | ring1Return => exact ring1Return_isolated_iff isolated

theorem CurrentActive.setDomain (inv : CurrentActive s) {i : Nat} {domain : DriverDomain}
    (kept : s.currentDomain = some i → domain.active = true) :
    CurrentActive (s.setDomain i domain) := by
  intro j current
  simp only [Isolation.setDomain]
  split
  · rename_i same
    exact kept (same ▸ current)
  · exact inv j current

theorem deactivate_currentActive (s : Isolation) : CurrentActive (driverDomainDeactivate s) :=
  fun _ current => by cases current

theorem activate_currentActive (inv : CurrentActive s) (domain : Option Nat) :
    CurrentActive (driverDomainActivate s domain) := by
  unfold driverDomainActivate
  split
  · exact inv
  split
  · exact inv
  rename_i i used
  have active : (s.domains i).active = true := by simpa using used
  dsimp only
  split <;> exact fun j current => by cases current; exact active

theorem call_currentActive (inv : CurrentActive s) (call : IsolationCall) :
    CurrentActive (s.call call) := by
  cases call with
  | create name isolationLevel stack =>
      simp only [Isolation.call, driverDomainCreate]
      split
      · exact inv
      split
      · exact inv
      rename_i i found
      have other : s.currentDomain ≠ some i := fun current => by
        have active := inv i current
        rw [find_inactive found] at active
        cases active
      have next : CurrentActive { s with nextDomainId := s.nextDomainId + 1 } := inv
      split
      · split <;> exact next.setDomain fun current => absurd current other
      · exact next.setDomain fun current => absurd current other
  | destroy domain =>
      simp only [Isolation.call, driverDomainDestroy]
      split
      · exact inv
      split
      · exact inv
      split
      · exact (deactivate_currentActive s).setDomain fun current => by cases current
      · rename_i other
        exact inv.setDomain fun current => absurd current other
  | allowPort domain start count =>
      cases domain with
      | none => exact inv
      | some i => exact inv.setDomain fun current => inv i current
  | denyPort domain start count =>
      cases domain with
      | none => exact inv
      | some i => exact inv.setDomain fun current => inv i current
  | activate domain => exact activate_currentActive inv domain
  | deactivate => exact deactivate_currentActive s
  | exec domain func =>
      simp only [Isolation.call, driverDomainExec]
      split
      · exact inv
      split
      · exact inv
      · rename_i i _
        exact activate_currentActive inv (some i)
  | execReturn =>
      simp only [Isolation.call, execReturn, ring1Return]
      split
      · exact inv
      split
      · split
        · exact inv
        · exact deactivate_currentActive _
      · exact deactivate_currentActive _
  | ring1Return =>
      simp only [Isolation.call, ring1Return]
      split
      · exact inv
      · exact deactivate_currentActive _

theorem isolationBoot_isolated : Isolated isolationBoot :=
  ⟨fun _ port _ => denyAll_test port, fun _ current => by cases current⟩

/-- The bitmap follows the current domain after `driver_isolation_init`, and in a run from
there after every call exactly if every call meets the condition. -/
theorem isolation_run_iff (calls : List IsolationCall) :
    Isolated isolationBoot ∧
      (Along Isolation.call (fun s call => Isolated (s.call call)) isolationBoot calls ↔
        Along Isolation.call KeepsIsolated isolationBoot calls) := by
  refine ⟨isolationBoot_isolated, ?_⟩
  have boot : CurrentActive isolationBoot ∧ Isolated isolationBoot :=
    ⟨(fun i current => by cases current), isolationBoot_isolated⟩
  refine along_iff (fun s => CurrentActive s ∧ Isolated s) Isolated (fun _ both => both.2)
    ?_ ?_ boot calls
  · intro s call both met
    exact ⟨call_currentActive both.1 call, (call_isolated_iff both.1 both.2 call).mpr met⟩
  · intro s call both isolated
    exact (call_isolated_iff both.1 both.2 call).mp isolated

/-- A driver domain is entered and left: every port is open. -/
theorem deactivate_opens_ports :
    let s := ((isolationBoot.call (.create (some "ata") 1 0xD0000018)).call
      (.activate (some 0))).call .deactivate
    s.currentDomain = none ∧ test s.tss.iopb 0x1F0 = false ∧ ¬ Isolated s :=
  ⟨rfl, by decide, deactivate_not_isolated _⟩

end ZurichOS
