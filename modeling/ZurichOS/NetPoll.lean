import ZurichOS.E1000

/-!
`net_poll` takes frames out of the ring of the network card and hands them to `eth_receive`.
-/

namespace ZurichOS.NetPoll

open E1000

abbrev rxBufferSize : Nat := 2048
abbrev netPollMax : Nat := 16

def firstData : List (Nat × List UInt8) → List UInt8
  | [] => []
  | out :: _ => out.2

/-- A call of `e1000_receive` up to its end, and what is in the buffer behind it; nothing if it
returned 0. -/
def e1000Receive (s : Nic) : List UInt8 × Nic :=
  let after := resume (resume (resume (resume (receive s rxBufferSize))))
  (firstData (after.returned.drop s.returned.length), after)

/-- The loop, with the turns that are left, and the frames that arrive before each of them.  The
last call comes before the turns are counted. -/
def pollLoop (gaps : Nat → List (List UInt8)) : Nat → Nic → List (List UInt8) × Nic
  | 0, s => ([], (e1000Receive ((gaps 0).foldl arrive s)).2)
  | turns + 1, s =>
      let got := e1000Receive ((gaps (turns + 1)).foldl arrive s)
      if got.1 = [] then ([], got.2)
      else
        let later := pollLoop gaps turns got.2
        (got.1 :: later.1, later.2)

/-- The frames that go to `eth_receive`. -/
def netPoll (gaps : Nat → List (List UInt8)) (s : Nic) : List (List UInt8) × Nic :=
  pollLoop gaps netPollMax s

variable {s t : Nic} {new : List (List UInt8)} {out : List (Nat × List UInt8)}

/-- What waits and what arrives between two states is what is returned and what waits then. -/
theorem sound_between (sound : Sound s) (after : Sound t) (isArrived : t.arrived = s.arrived ++ new)
    (isReturned : t.returned = s.returned ++ out) :
    ∃ frames, pending s ++ new = frames ++ pending t ∧
      List.Forall₂ (fun out frame => out.2 = frame.take out.1) out frames := by
  obtain ⟨read, isRead, outs⟩ := sound.order
  obtain ⟨later, isLater, all⟩ := after.order
  have lengths := all.length_eq
  rw [isReturned, List.length_append, outs.length_eq] at lengths
  rw [isLater, isRead, List.append_assoc] at isArrived
  rcases List.append_eq_append_iff.mp isArrived with ⟨frames, rfl, isRest⟩ | ⟨frames, rfl, isRest⟩
  · rw [List.length_append] at lengths
    obtain rfl : out = [] := List.length_eq_zero_iff.mp (by omega)
    obtain rfl : frames = [] := List.length_eq_zero_iff.mp (by omega)
    exact ⟨[], isRest.symm, .nil⟩
  · have last := List.forall₂_drop_append _ _ _ all
    rw [isReturned, ← outs.length_eq, List.drop_left] at last
    exact ⟨frames, isRest, last⟩

/-- Frames that arrive join the ones that wait, as far as there is room. -/
theorem arrive_waits (sound : Sound s) (frames : List (List UInt8)) :
    ∃ new, Sound (frames.foldl arrive s) ∧ (frames.foldl arrive s).call = s.call ∧
      (frames.foldl arrive s).arrived = s.arrived ++ new ∧
      pending (frames.foldl arrive s) = pending s ++ new ∧ (frames = [] → new = []) := by
  suffices joined : ∃ new, Sound (frames.foldl arrive s) ∧
      (frames.foldl arrive s).call = s.call ∧
      (frames.foldl arrive s).arrived = s.arrived ++ new ∧
      (frames.foldl arrive s).returned = s.returned ∧ (frames = [] → new = []) by
    obtain ⟨new, after, isCall, isArrived, isReturned, none⟩ := joined
    obtain ⟨read, isPending, outs⟩ :=
      sound_between sound after isArrived (isReturned.trans (List.append_nil _).symm)
    cases outs
    exact ⟨new, after, isCall, isArrived, isPending.symm, none⟩
  induction frames generalizing s with
  | nil => exact ⟨[], sound, rfl, (List.append_nil _).symm, rfl, fun _ => rfl⟩
  | cons frame rest ih =>
      obtain ⟨new, after, isCall, isArrived, isReturned, -⟩ := ih (sound.arrive frame)
      have one : ∃ first, (arrive s frame).arrived = s.arrived ++ first ∧
          (arrive s frame).call = s.call ∧ (arrive s frame).returned = s.returned := by
        rw [arrive]
        split
        · exact ⟨[], (List.append_nil _).symm, rfl, rfl⟩
        · exact ⟨[frame], rfl, rfl, rfl⟩
      obtain ⟨first, isFirst, sameCall, sameReturned⟩ := one
      refine ⟨first ++ new, after, isCall.trans sameCall, ?_, isReturned.trans sameReturned,
        fun none => absurd none (List.cons_ne_nil frame rest)⟩
      rw [← List.append_assoc, ← isFirst]
      exact isArrived

/-- A call that nothing interrupts takes the first frame that waits, if there is one. -/
theorem e1000Receive_takes (sound : Sound s) (idle : s.call = .idle) :
    Sound (e1000Receive s).2 ∧ (e1000Receive s).2.call = .idle ∧
      (e1000Receive s).2.arrived = s.arrived ∧
      (pending s = [] ∧ (e1000Receive s).1 = [] ∧ pending (e1000Receive s).2 = [] ∨
        ∃ frame, pending s = frame :: pending (e1000Receive s).2 ∧
          (e1000Receive s).1 = frame.take rxBufferSize) := by
  have after : Sound (e1000Receive s).2 :=
    (sound.receive rxBufferSize).resume.resume.resume.resume
  by_cases marked : (s.rxDescs s.rxCur).done = true
  · have steps : ∃ data, (e1000Receive s).2.call = .idle ∧
        (e1000Receive s).2.arrived = s.arrived ∧
        (e1000Receive s).2.returned = s.returned ++ [(rxBufferSize, data)] := by
      simp only [e1000Receive, receive, idle, marked, if_true, resume]
      exact ⟨_, trivial, trivial, rfl⟩
    obtain ⟨data, isIdle, isArrived, isReturned⟩ := steps
    obtain ⟨frames, isPending, outs⟩ := sound_between sound after
      (isArrived.trans (List.append_nil _).symm) isReturned
    obtain ⟨frame, isData, rfl⟩ : ∃ frame, data = frame.take rxBufferSize ∧ frames = [frame] := by
      cases outs with
      | cons isData none =>
          cases none
          exact ⟨_, isData, rfl⟩
    refine ⟨after, isIdle, isArrived, .inr ⟨frame, (List.append_nil _).symm.trans isPending, ?_⟩⟩
    have isGot : (e1000Receive s).1 =
        firstData ((e1000Receive s).2.returned.drop s.returned.length) := rfl
    rw [isGot, isReturned, List.drop_left]
    exact isData
  · have still : e1000Receive s = ([], s) := by
      have same : receive s rxBufferSize = s := by
        simp only [receive, idle, if_neg marked]
      have rests : resume s = s := by
        simp only [resume, idle]
      simp only [e1000Receive, same, rests, List.drop_length, firstData]
    have none : pending s = [] := by
      by_contra some
      exact marked ((sound.marked_iff idle).mpr some)
    rw [still]
    exact ⟨sound, idle, rfl, .inl ⟨none, rfl, none⟩⟩

/-- Whatever arrives meanwhile, a poll hands over frames in their order and at most as many as it
has turns.  It ends with a call that finds nothing, or takes one frame more, which is lost. -/
theorem pollLoop_takes (sound : Sound s) (idle : s.call = .idle)
    (gaps : Nat → List (List UInt8)) (turns : Nat) :
    let poll := pollLoop gaps turns s
    Sound poll.2 ∧ poll.2.call = .idle ∧ ∃ new frames lost, poll.2.arrived = s.arrived ++ new ∧
      pending s ++ new = frames ++ lost ++ pending poll.2 ∧
      poll.1 = frames.map (·.take rxBufferSize) ∧ frames.length ≤ turns ∧
      (lost = [] ∧ pending poll.2 = [] ∨
        ∃ frame, lost = [frame] ∧ (frames.length = turns ∨ frame = [])) ∧
      ((∀ i, gaps i = []) → new = []) := by
  induction turns generalizing s with
  | zero =>
      obtain ⟨new, after, isCall, isArrived, isPending, quiet⟩ := arrive_waits sound (gaps 0)
      obtain ⟨taken, isIdle, sameArrived, found⟩ :=
        e1000Receive_takes after (isCall.trans idle)
      refine ⟨taken, isIdle, new, [], ?_⟩
      rcases found with ⟨empty, -, drained⟩ | ⟨frame, isFirst, -⟩
      · refine ⟨[], sameArrived.trans isArrived, ?_, rfl, Nat.le_refl 0, .inl ⟨rfl, drained⟩,
          fun all => quiet (all 0)⟩
        rw [← isPending, empty]
        exact drained.symm
      · refine ⟨[frame], sameArrived.trans isArrived, ?_, rfl, Nat.le_refl 0,
          .inr ⟨frame, rfl, .inl rfl⟩, fun all => quiet (all 0)⟩
        rw [← isPending]
        exact isFirst
  | succ turns ih =>
      obtain ⟨new, after, isCall, isArrived, isPending, quiet⟩ :=
        arrive_waits sound (gaps (turns + 1))
      obtain ⟨taken, isIdle, sameArrived, found⟩ :=
        e1000Receive_takes after (isCall.trans idle)
      rw [pollLoop]
      dsimp only
      by_cases ends : (e1000Receive ((gaps (turns + 1)).foldl arrive s)).1 = []
      · rw [if_pos ends]
        refine ⟨taken, isIdle, new, [], ?_⟩
        rcases found with ⟨empty, -, drained⟩ | ⟨frame, isFirst, isData⟩
        · refine ⟨[], sameArrived.trans isArrived, ?_, rfl, Nat.zero_le _, .inl ⟨rfl, drained⟩,
            fun all => quiet (all _)⟩
          rw [← isPending, empty]
          exact drained.symm
        · have isEmpty : frame = [] := by
            rw [ends] at isData
            exact (List.take_eq_nil_iff.mp isData.symm).resolve_left (by decide)
          refine ⟨[frame], sameArrived.trans isArrived, ?_, rfl, Nat.zero_le _,
            .inr ⟨frame, rfl, .inr isEmpty⟩, fun all => quiet (all _)⟩
          rw [← isPending]
          exact isFirst
      · rw [if_neg ends]
        obtain ⟨last, lastIdle, later, frames, lost, lastArrived, lastPending, handed, few, cases,
          lastQuiet⟩ := ih taken isIdle
        obtain ⟨empty, isNone, -⟩ | ⟨frame, isFirst, isData⟩ := found
        · exact absurd isNone ends
        refine ⟨last, lastIdle, new ++ later, frame :: frames, lost, ?_, ?_, ?_,
          Nat.succ_le_succ few, ?_, fun all => ?_⟩
        · rw [lastArrived, sameArrived, isArrived, List.append_assoc]
        · rw [← List.append_assoc, ← isPending, isFirst, List.cons_append, lastPending]
          rfl
        · rw [isData, handed]
          rfl
        · rcases cases with none | ⟨frame, isLost, full | isEmpty⟩
          · exact .inl none
          · exact .inr ⟨frame, isLost, .inl (congrArg (· + 1) full)⟩
          · exact .inr ⟨frame, isLost, .inr isEmpty⟩
        · rw [quiet (all _), lastQuiet all]
          rfl

def seventeen : List Event := List.replicate 17 (.arrive [7])

end ZurichOS.NetPoll
