import Mathlib.Data.List.Basic
import Mathlib.Logic.Function.Basic

/-!
Arrays with a counter of the entries in use at their front.  An entry is removed by
shifting the later ones down, also while a loop scans the array.
-/

structure CompactArray (α : Type) where
  slots : Nat → α
  count : Nat

namespace CompactArray

variable {α : Type}

def toList (t : CompactArray α) : List α := (List.range t.count).map t.slots

def push (t : CompactArray α) (entry : α) : CompactArray α :=
  { slots := Function.update t.slots t.count entry, count := t.count + 1 }

/-- `slots[j] = slots[j + 1]` for the `steps` indices from `i` on. -/
def shiftDown (slots : Nat → α) (i steps : Nat) : Nat → α :=
  (List.range' i steps).foldl (fun slots j => Function.update slots j (slots (j + 1))) slots

def removeAt (t : CompactArray α) (i : Nat) : CompactArray α :=
  { slots := shiftDown t.slots i (t.count - 1 - i), count := t.count - 1 }

/-- The first entry that meets `p` is removed. -/
def eraseFirst (t : CompactArray α) (p : α → Bool) : CompactArray α :=
  match (List.range t.count).find? fun i => p (t.slots i) with
  | none => t
  | some i => t.removeAt i

/-- The loop from `i` that removes every entry that meets `p`, and the entries removed. -/
def sweep (p : α → Bool) : Nat → Nat → CompactArray α → List α × CompactArray α
  | 0, _, t => ([], t)
  | fuel + 1, i, t =>
      if i < t.count then
        if p (t.slots i) then
          let rest := sweep p fuel i (t.removeAt i)
          (t.slots i :: rest.1, rest.2)
        else sweep p fuel (i + 1) t
      else ([], t)

variable {t : CompactArray α} {i : Nat}

@[simp] theorem length_toList (t : CompactArray α) : t.toList.length = t.count := by
  simp [toList]

theorem getElem_toList (bound : i < t.toList.length) : t.toList[i] = t.slots i := by
  simp [toList]

theorem mem_toList {entry : α} : entry ∈ t.toList ↔ ∃ i < t.count, t.slots i = entry := by
  simp [toList]

@[simp] theorem toList_push (t : CompactArray α) (entry : α) :
    (t.push entry).toList = t.toList ++ [entry] := by
  have earlier : (List.range t.count).map (Function.update t.slots t.count entry) =
      (List.range t.count).map t.slots := by
    refine List.map_congr_left fun i member => Function.update_of_ne ?_ _ _
    exact Nat.ne_of_lt (List.mem_range.mp member)
  show (List.range (t.count + 1)).map (Function.update t.slots t.count entry) = _
  rw [List.range_succ, List.map_append, earlier, List.map_singleton, Function.update_self]
  rfl

theorem shiftDown_apply (slots : Nat → α) (i steps k : Nat) :
    shiftDown slots i steps k = if i ≤ k ∧ k < i + steps then slots (k + 1) else slots k := by
  induction steps generalizing slots i with
  | zero => rw [if_neg (by omega)]; rfl
  | succ steps ih =>
      have step : shiftDown slots i (steps + 1) =
          shiftDown (Function.update slots i (slots (i + 1))) (i + 1) steps := rfl
      rw [step, ih]
      by_cases own : k = i
      · subst own
        rw [if_neg (by omega), if_pos (by omega), Function.update_self]
      · rw [Function.update_of_ne own]
        by_cases inside : i + 1 ≤ k ∧ k < i + 1 + steps
        · rw [if_pos inside, if_pos (by omega), Function.update_of_ne (by omega)]
        · rw [if_neg inside, if_neg (by omega)]

theorem toList_removeAt (bound : i < t.count) : (t.removeAt i).toList = t.toList.eraseIdx i := by
  have length : (t.toList.eraseIdx i).length = t.count - 1 := by
    rw [List.length_eraseIdx_of_lt (by rwa [length_toList]), length_toList]
  refine List.ext_getElem (by rw [length_toList, length]; rfl) fun k here there => ?_
  have inside : k < t.count - 1 := length ▸ there
  rw [getElem_toList, List.getElem_eraseIdx]
  show shiftDown t.slots i (t.count - 1 - i) k = _
  rw [shiftDown_apply]
  split
  · rw [dif_neg (by omega), getElem_toList]
  · rw [dif_pos (by omega), getElem_toList]

theorem toList_eraseFirst (t : CompactArray α) (p : α → Bool) :
    (t.eraseFirst p).toList = t.toList.eraseP p := by
  unfold eraseFirst
  split
  · rename_i none
    refine (List.eraseP_of_forall_not fun entry member => ?_).symm
    obtain ⟨i, bound, rfl⟩ := mem_toList.mp member
    exact List.find?_eq_none.mp none i (List.mem_range.mpr bound)
  · rename_i i found
    obtain ⟨meets, bound, first⟩ := List.find?_range_eq_some.mp found
    replace bound := List.mem_range.mp bound
    rw [toList_removeAt bound, List.eraseP_eq_eraseIdx]
    have index : t.toList.findIdx? p = some i := by
      refine List.findIdx?_eq_some_iff_getElem.mpr ⟨by rwa [length_toList], ?_, fun j before => ?_⟩
      · rwa [getElem_toList]
      · rw [getElem_toList]
        exact fun early => by simpa [early] using first j before
    rw [index]

/-- A whole sweep leaves what is before `i` and the entries behind that do not meet `p`. -/
theorem sweep_spec (p : α → Bool) (fuel : Nat) (enough : t.count ≤ i + fuel) :
    (sweep p fuel i t).1 = (t.toList.drop i).filter p ∧
      (sweep p fuel i t).2.toList =
        t.toList.take i ++ (t.toList.drop i).filter fun entry => !p entry := by
  induction fuel generalizing i t with
  | zero =>
      have whole : t.toList.length ≤ i := by rw [length_toList]; exact enough
      rw [sweep, List.drop_eq_nil_of_le whole, List.take_of_length_le whole]
      simp
  | succ fuel ih =>
      rw [sweep]
      by_cases inside : i < t.count
      · have here : i < t.toList.length := by rwa [length_toList]
        have split : t.toList.drop i = t.slots i :: t.toList.drop (i + 1) := by
          rw [List.drop_eq_getElem_cons here, getElem_toList]
        rw [if_pos inside]
        by_cases meets : p (t.slots i) = true
        · obtain ⟨removed, kept⟩ := @ih (t.removeAt i) i (by
            show t.count - 1 ≤ i + fuel
            omega)
          have before : (t.toList.eraseIdx i).take i = t.toList.take i := by
            rw [List.eraseIdx_eq_take_drop_succ, List.take_left' (by
              rw [List.length_take]
              omega)]
          have behind : (t.toList.eraseIdx i).drop i = t.toList.drop (i + 1) := by
            rw [List.eraseIdx_eq_take_drop_succ, List.drop_left' (by
              rw [List.length_take]
              omega)]
          rw [toList_removeAt inside, behind] at removed kept
          rw [if_pos meets, split]
          dsimp only
          rw [removed, kept, before, List.filter_cons_of_pos meets,
            List.filter_cons_of_neg (by simp [meets])]
          exact ⟨rfl, rfl⟩
        · obtain ⟨removed, kept⟩ := @ih t (i + 1) (by omega)
          rw [if_neg meets, removed, kept, split, List.filter_cons_of_neg meets,
            List.filter_cons_of_pos (by simpa using meets),
            List.take_succ_eq_append_getElem here, getElem_toList, List.append_assoc]
          exact ⟨rfl, rfl⟩
      · have whole : t.toList.length ≤ i := by rw [length_toList]; omega
        rw [if_neg inside, List.drop_eq_nil_of_le whole, List.take_of_length_le whole]
        simp

theorem sweep_all (t : CompactArray α) (p : α → Bool) :
    (t.sweep p t.count 0).1 = t.toList.filter p ∧
      (t.sweep p t.count 0).2.toList = t.toList.filter fun entry => !p entry := by
  have swept := @sweep_spec _ t 0 p t.count (Nat.le_add_left _ _)
  rwa [List.drop_zero, List.take_zero, List.nil_append] at swept

end CompactArray
