import Mathlib.Data.List.NodupEquivFin
import Mathlib.Data.List.Range
import Mathlib.Logic.Equiv.Basic

/-!
Bubble sort of the first entries of a table: the passes permute the entries, and each puts the
greatest of those that are left behind them.
-/

namespace BubbleSort

variable {α : Type} (le : α → α → Prop) [DecidableRel le]

/-- Two neighbours change places unless they are in order. -/
def orderPair (table : Nat → α) (j : Nat) : Nat → α :=
  if le (table j) (table (j + 1)) then table else table ∘ Equiv.swap j (j + 1)

def pass (count : Nat) (table : Nat → α) : Nat → α :=
  (List.range count).foldl (orderPair le) table

def bubble (count : Nat) (table : Nat → α) : Nat → α :=
  (List.range (count - 1)).foldl (fun table i => pass le (count - 1 - i) table) table

variable {le} {table : Nat → α}

theorem pass_succ (count : Nat) :
    pass le (count + 1) table = orderPair le (pass le count table) count := by
  rw [pass, List.range_succ, List.foldl_concat]
  rfl

/-- A permutation that keeps the entries from some place on keeps the others in front of it. -/
theorem perm_lt {perm : Equiv.Perm Nat} {count : Nat} (fixed : ∀ k, count ≤ k → perm k = k)
    {k : Nat} (below : k < count) : perm k < count := by
  by_contra beyond
  have same := perm.injective (fixed (perm k) (Nat.not_lt.mp beyond))
  omega

/-- A pass moves the greatest entry to its end. -/
theorem pass_spec (total : ∀ a b, le a b ∨ le b a) (trans : ∀ a b c, le a b → le b c → le a c)
    (table : Nat → α) (count : Nat) :
    (∃ perm : Equiv.Perm Nat, pass le count table = table ∘ perm ∧ ∀ k, count < k → perm k = k) ∧
      ∀ k ≤ count, le (pass le count table k) (pass le count table count) := by
  have refl (a : α) : le a a := (total a a).elim id id
  induction count with
  | zero =>
      refine ⟨⟨Equiv.refl Nat, rfl, fun k _ => rfl⟩, fun k within => ?_⟩
      rw [Nat.le_zero.mp within]
      exact refl _
  | succ count ih =>
      obtain ⟨⟨perm, is, fixed⟩, greatest⟩ := ih
      rw [pass_succ]
      generalize pass le count table = before at is greatest
      rw [orderPair]
      by_cases inOrder : le (before count) (before (count + 1))
      · rw [if_pos inOrder]
        refine ⟨⟨perm, is, fun k beyond => fixed k (Nat.lt_of_succ_lt beyond)⟩, fun k within => ?_⟩
        by_cases last : k = count + 1
        · rw [last]
          exact refl _
        · exact trans _ _ _ (greatest k (by omega)) inOrder
      · rw [if_neg inOrder]
        refine ⟨⟨(Equiv.swap count (count + 1)).trans perm, ?_, fun k beyond => ?_⟩,
          fun k within => ?_⟩
        · rw [is]
          rfl
        · rw [Equiv.trans_apply, Equiv.swap_apply_of_ne_of_ne (by omega) (by omega),
            fixed k (Nat.lt_of_succ_lt beyond)]
        · rw [Function.comp_apply, Function.comp_apply, Equiv.swap_apply_right]
          by_cases last : k = count + 1
          · rw [last, Equiv.swap_apply_right]
            exact refl _
          · by_cases moved : k = count
            · rw [moved, Equiv.swap_apply_left]
              exact (total _ _).resolve_left inOrder
            · rw [Equiv.swap_apply_of_ne_of_ne moved last]
              exact greatest k (by omega)

/-- The entries behind those that are left are greater than all in front of them. -/
theorem passes_spec (total : ∀ a b, le a b ∨ le b a) (trans : ∀ a b c, le a b → le b c → le a c)
    (table : Nat → α) (count turns : Nat) (within : turns < count) :
    ∃ perm : Equiv.Perm Nat,
      (List.range turns).foldl (fun table i => pass le (count - 1 - i) table) table =
        table ∘ perm ∧
      (∀ k, count ≤ k → perm k = k) ∧
      ∀ k, count - turns ≤ k → k < count → ∀ i < k, le (table (perm i)) (table (perm k)) := by
  induction turns with
  | zero => exact ⟨Equiv.refl Nat, rfl, fun k _ => rfl, fun k beyond below => by omega⟩
  | succ turns ih =>
      obtain ⟨perm, is, fixed, sorted⟩ := ih (by omega)
      obtain ⟨⟨moves, moved, kept⟩, greatest⟩ :=
        pass_spec total trans (table ∘ perm) (count - 1 - turns)
      rw [List.range_succ, List.foldl_concat, is]
      rw [moved] at greatest
      refine ⟨moves.trans perm, moved, fun k beyond => ?_, fun k beyond below i before => ?_⟩
      · rw [Equiv.trans_apply, kept k (by omega), fixed k beyond]
      · rw [Equiv.trans_apply, Equiv.trans_apply]
        by_cases last : k = count - 1 - turns
        · rw [last]
          exact greatest i (by omega)
        · rw [kept k (by omega)]
          refine sorted k (by omega) below (moves i) ?_
          by_cases left : i < count - turns
          · have inFront := perm_lt (fun j beyond => kept j (by omega)) left
            omega
          · rw [kept i (by omega)]
            exact before

theorem bubble_spec (total : ∀ a b, le a b ∨ le b a)
    (trans : ∀ a b c, le a b → le b c → le a c) (table : Nat → α) (count : Nat) :
    ((List.range count).map (bubble le count table)).Perm ((List.range count).map table) ∧
      ((List.range count).map (bubble le count table)).Pairwise le := by
  cases count with
  | zero => exact ⟨List.Perm.refl _, List.Pairwise.nil⟩
  | succ count =>
      obtain ⟨perm, is, fixed, sorted⟩ :=
        passes_spec total trans table (count + 1) count (Nat.lt_succ_self count)
      have isBubble : bubble le (count + 1) table = table ∘ perm := is
      rw [isBubble]
      constructor
      · rw [← List.map_map]
        refine List.Perm.map table ?_
        refine (List.perm_ext_iff_of_nodup (List.nodup_range.map perm.injective)
          List.nodup_range).mpr fun k => ?_
        rw [List.mem_map, List.mem_range]
        constructor
        · rintro ⟨i, inside, rfl⟩
          exact perm_lt fixed (List.mem_range.mp inside)
        · intro below
          refine ⟨perm.symm k, List.mem_range.mpr ?_, perm.apply_symm_apply k⟩
          by_contra beyond
          have same := fixed (perm.symm k) (Nat.not_lt.mp beyond)
          rw [perm.apply_symm_apply] at same
          omega
      · rw [List.pairwise_map, List.pairwise_iff_getElem]
        intro i j insideI insideJ before
        rw [List.getElem_range, List.getElem_range]
        rw [List.length_range] at insideJ
        exact sorted j (by omega) insideJ i before

end BubbleSort
