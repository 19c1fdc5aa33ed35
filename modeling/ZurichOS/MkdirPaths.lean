import ZurichOS.PathFold
import ZurichOS.SyscallFsCore

/-!
How `vfs_mkdir` takes a path apart, against the steps that `vfs_lookup` makes of it.
-/

namespace ZurichOS

open ByteBuffer PathWalk

/-- The directory and the name that `vfs_mkdir` cuts a path into; no directory is the root. -/
def mkdirSplit (path : List UInt8) : Option (List UInt8) × List UInt8 :=
  match splitPath ((cString path).take (vfsMaxPath - 1)) with
  | some (dir, last) => (if dir = [] then none else some dir, last.take (vfsMaxName - 1))
  | none => (none, (cString path).take (vfsMaxName - 1))

/-- The steps to the directory that the new one goes into. -/
def mkdirSteps (path : List UInt8) : List (Step (List UInt8)) :=
  match (mkdirSplit path).1 with
  | some dir => vfsSteps dir
  | none => []

/-- The steps of a lookup on the path are those to the directory, and one by the new name. -/
def MkdirWhole (path : List UInt8) : Prop :=
  vfsSteps path = mkdirSteps path ++ [.child (mkdirSplit path).2]

variable {path dir last : List UInt8}

theorem pathSteps_cons (nonempty : path ≠ []) :
    pathSteps path =
      if (nextComponent path).1 = dot then pathSteps (nextComponent path).2
      else (if (nextComponent path).1 = dotDot then .up else .child (nextComponent path).1) ::
        pathSteps (nextComponent path).2 := by
  rw [pathSteps, dif_neg nonempty]

theorem takeWhile_append_slash (path last : List UInt8) :
    (path ++ slash :: last).takeWhile (· ≠ slash) = path.takeWhile (· ≠ slash) := by
  induction path with
  | nil => rfl
  | cons first later ih =>
      by_cases isSlash : first = slash
      · simp [isSlash]
      · simp only [List.cons_append]
        rw [List.takeWhile_cons_of_pos (by simpa using isSlash),
          List.takeWhile_cons_of_pos (by simpa using isSlash), ih]

theorem dropWhile_append_slash (noSlash : slash ∉ last) (rest : List UInt8) :
    (rest ++ slash :: last).dropWhile (· = slash) =
      if rest.dropWhile (· = slash) = [] then last
      else rest.dropWhile (· = slash) ++ slash :: last := by
  have stays : last.dropWhile (· = slash) = last := by
    cases last with
    | nil => rfl
    | cons first later =>
        have other : first ≠ slash := fun same => noSlash (same ▸ List.mem_cons_self ..)
        rw [List.dropWhile_cons_of_neg (by simpa using other)]
  induction rest with
  | nil => simpa using stays
  | cons first later ih =>
      by_cases isSlash : first = slash
      · rw [List.cons_append, List.dropWhile_cons_of_pos (by simpa using isSlash),
          List.dropWhile_cons_of_pos (by simpa using isSlash), ih]
      · rw [List.cons_append, List.dropWhile_cons_of_neg (by simpa using isSlash),
          List.dropWhile_cons_of_neg (by simpa using isSlash), if_neg (List.cons_ne_nil _ _)]
        rfl

theorem nextComponent_append (path : List UInt8) (noSlash : slash ∉ last) :
    nextComponent (path ++ slash :: last) = ((nextComponent path).1,
      if (nextComponent path).2 = [] then last else (nextComponent path).2 ++ slash :: last) := by
  have first : ((path ++ slash :: last).takeWhile (· ≠ slash)).take (vfsMaxName - 1) =
      (path.takeWhile (· ≠ slash)).take (vfsMaxName - 1) := by rw [takeWhile_append_slash]
  have short : ((path.takeWhile (· ≠ slash)).take (vfsMaxName - 1)).length ≤ path.length :=
    (List.length_take_le' ..).trans (List.takeWhile_prefix _).length_le
  rw [nextComponent, nextComponent]
  dsimp only
  rw [first, List.drop_append_of_le_length short, dropWhile_append_slash noSlash]

theorem pathSteps_append (nonempty : path ≠ []) (noSlash : slash ∉ last) :
    pathSteps (path ++ slash :: last) = pathSteps path ++ pathSteps last := by
  have whole : path ++ slash :: last ≠ [] := by simp
  induction path using pathSteps.induct with
  | case1 => exact absurd rfl nonempty
  | case2 path _ component rest shorter isDot ih =>
      rw [pathSteps_cons whole, pathSteps_cons nonempty, nextComponent_append path noSlash]
      dsimp only
      rw [if_pos isDot, if_pos isDot]
      by_cases ends : (nextComponent path).2 = []
      · rw [if_pos ends, ends]
        rw [show pathSteps [] = [] by rw [pathSteps, dif_pos rfl]]
        rfl
      · rw [if_neg ends]
        exact ih ends (by simp)
  | case3 path _ component rest shorter notDot ih =>
      rw [pathSteps_cons whole, pathSteps_cons nonempty, nextComponent_append path noSlash]
      dsimp only
      rw [if_neg notDot, if_neg notDot, List.cons_append]
      congr 1
      by_cases ends : (nextComponent path).2 = []
      · rw [if_pos ends, ends]
        rw [show pathSteps [] = [] by rw [pathSteps, dif_pos rfl]]
        rfl
      · rw [if_neg ends]
        exact ih ends (by simp)

theorem takeWhile_all (noSlash : slash ∉ path) : path.takeWhile (· ≠ slash) = path :=
  List.takeWhile_eq_self_iff.mpr fun char member => by
    have other : char ≠ slash := fun same => noSlash (same ▸ member)
    simpa using other

/-- Behind a component that does not fill the buffer there is nothing. -/
theorem nextComponent_short (noSlash : slash ∉ path)
    (short : (nextComponent path).1.length < vfsMaxName - 1) : (nextComponent path).2 = [] := by
  have first : (nextComponent path).1 = path.take (vfsMaxName - 1) := by
    change (path.takeWhile (· ≠ slash)).take (vfsMaxName - 1) = _
    rw [takeWhile_all noSlash]
  have all : path.length ≤ (nextComponent path).1.length := by
    rw [first, List.length_take] at short ⊢
    omega
  change (path.drop (nextComponent path).1.length).dropWhile (· = slash) = []
  rw [List.drop_eq_nil_of_le all]
  rfl

theorem pathSteps_down (noSlash : slash ∉ path) : DownThenUp (pathSteps path) := by
  induction path using pathSteps.induct with
  | case1 =>
      rw [pathSteps, dif_pos rfl]
      trivial
  | case2 path nonempty component rest shorter isDot ih =>
      rw [pathSteps_cons nonempty, if_pos isDot]
      refine ih fun member => noSlash ?_
      exact List.mem_of_mem_drop ((List.dropWhile_suffix _).subset member)
  | case3 path nonempty component rest shorter notDot ih =>
      rw [pathSteps_cons nonempty, if_neg notDot]
      by_cases isUp : (nextComponent path).1 = dotDot
      · rw [if_pos isUp]
        -- A component of two characters is all there is.
        have ends := nextComponent_short noSlash (by rw [isUp]; decide)
        rw [ends]
        change pathSteps [] = []
        rw [pathSteps, dif_pos rfl]
      · rw [if_neg isUp]
        refine ih fun member => noSlash ?_
        exact List.mem_of_mem_drop ((List.dropWhile_suffix _).subset member)

/-- A path with a slash is its directory, a slash, and its last component. -/
theorem splitPath_some (parts : splitPath path = some (dir, last)) :
    path = dir ++ slash :: last ∧ slash ∉ last := by
  rw [splitPath] at parts
  split at parts
  · rename_i member
    obtain ⟨isDir, isLast⟩ := Prod.mk.injEq .. ▸ Option.some.inj parts
    have noSlash : slash ∉ last := by
      rw [← isLast, List.mem_reverse]
      intro inside
      have other := List.mem_takeWhile_imp inside
      simp at other
    have behind : path.reverse.dropWhile (· ≠ slash) ≠ [] := by
      intro none
      rw [List.dropWhile_eq_nil_iff] at none
      have other := none slash (List.mem_reverse.mpr member)
      simp at other
    obtain ⟨first, rest, isRest⟩ := List.exists_cons_of_ne_nil behind
    have isSlash : first = slash := by
      have head := List.head?_dropWhile_not (· ≠ slash) path.reverse
      rw [isRest] at head
      simpa using head
    have whole : path = rest.reverse ++ slash :: last := by
      have parts := List.takeWhile_append_dropWhile (p := (· ≠ slash)) (l := path.reverse)
      rw [isRest, isSlash] at parts
      have turned := congrArg List.reverse parts
      rw [List.reverse_reverse, List.reverse_append, List.reverse_cons, isLast] at turned
      rw [← turned, List.append_assoc]
      rfl
    refine ⟨?_, noSlash⟩
    have front : dir = rest.reverse := by
      rw [← isDir, isLast]
      have size : path.length - last.length - 1 = rest.reverse.length := by
        rw [whole, List.length_append, List.length_cons]
        omega
      rw [size, whole, List.take_left]
    rw [front]
    exact whole
  · cases parts

/-- The steps of a last component: none, or up, or first to the name that `vfs_mkdir` takes. -/
theorem pathSteps_last (noSlash : slash ∉ last) :
    pathSteps last = [] ∨ pathSteps last = [.up] ∨
      ∃ rest, pathSteps last = .child (last.take (vfsMaxName - 1)) :: rest ∧ DownThenUp rest := by
  by_cases empty : last = []
  · left
    rw [pathSteps, dif_pos empty]
  have down := pathSteps_down noSlash
  have first : (nextComponent last).1 = last.take (vfsMaxName - 1) := by
    change (last.takeWhile (· ≠ slash)).take (vfsMaxName - 1) = _
    rw [takeWhile_all noSlash]
  rw [pathSteps_cons empty] at down ⊢
  by_cases isDot : (nextComponent last).1 = dot
  · left
    rw [if_pos isDot, nextComponent_short noSlash (by rw [isDot]; decide), pathSteps, dif_pos rfl]
  · rw [if_neg isDot] at down ⊢
    right
    by_cases isUp : (nextComponent last).1 = dotDot
    · left
      rw [if_pos isUp, nextComponent_short noSlash (by rw [isUp]; decide), pathSteps, dif_pos rfl]
    · right
      rw [if_neg isUp] at down ⊢
      rw [first] at down ⊢
      exact ⟨_, rfl, down⟩

theorem splitPath_none (whole : splitPath path = none) : slash ∉ path := by
  intro member
  rw [splitPath, if_pos member] at whole
  cases whole

theorem cString_string (string : 0 ∉ path) : cString path = path :=
  List.takeWhile_eq_self_iff.mpr fun char member => by
    have other : char ≠ 0 := fun zero => string (zero ▸ member)
    simpa using other

theorem cString_zero (path : List UInt8) : 0 ∉ cString path := fun zero => cString_nonzero zero rfl

theorem vfsSteps_split (whole : cString path = dir ++ slash :: last) (noSlash : slash ∉ last) :
    (dir = [] ∧ vfsSteps path = pathSteps last) ∨
      (dir ≠ [] ∧ vfsSteps path = vfsSteps dir ++ pathSteps last) ∨
      dir = [slash] ∧ vfsSteps dir = [] ∧ vfsSteps path = .child [] :: pathSteps last := by
  have string : cString dir = dir := cString_string fun zero =>
    cString_zero path (by rw [whole]; exact List.mem_append_left _ zero)
  have all : vfsSteps path = pathSteps (if (cString path).head? = some slash
      then (cString path).tail else cString path) := rfl
  have front : vfsSteps dir = pathSteps (if dir.head? = some slash then dir.tail else dir) := by
    change pathSteps (if (cString dir).head? = some slash then (cString dir).tail
      else cString dir) = _
    rw [string]
  rw [all, whole, front]
  cases dir with
  | nil => exact .inl ⟨rfl, rfl⟩
  | cons first rest =>
      right
      by_cases isSlash : first = slash
      · rw [isSlash]
        rw [show (if (slash :: rest ++ slash :: last).head? = some slash
            then (slash :: rest ++ slash :: last).tail else slash :: rest ++ slash :: last) =
          rest ++ slash :: last from rfl,
          show (if (slash :: rest).head? = some slash then (slash :: rest).tail
            else slash :: rest) = rest from rfl]
        by_cases more : rest = []
        · right
          have none : pathSteps [] = [] := by rw [pathSteps, dif_pos rfl]
          rw [more, List.nil_append, pathSteps_cons (List.cons_ne_nil _ _)]
          have first : nextComponent (slash :: last) = ([], last) := by
            have component : ((slash :: last).takeWhile (· ≠ slash)).take (vfsMaxName - 1) = [] :=
              by simp
            have stays : (slash :: last).dropWhile (· = slash) = last :=
              dropWhile_append_slash noSlash []
            rw [nextComponent]
            rw [component]
            exact congrArg (Prod.mk []) stays
          rw [first]
          exact ⟨rfl, none, rfl⟩
        · exact .inl ⟨List.cons_ne_nil _ _, pathSteps_append more noSlash⟩
      · left
        have head : (first :: rest).head? ≠ some slash := by simpa using isSlash
        have more : (first :: rest ++ slash :: last).head? ≠ some slash := head
        rw [if_neg head, if_neg more]
        exact ⟨List.cons_ne_nil _ _, pathSteps_append (List.cons_ne_nil _ _) noSlash⟩

/-- What a lookup makes of a path that fits into the buffer of `vfs_mkdir`. -/
theorem vfsSteps_mkdir (fits : (cString path).length < vfsMaxPath) :
    ∃ last, slash ∉ last ∧ (mkdirSplit path).2 = last.take (vfsMaxName - 1) ∧
      (vfsSteps path = mkdirSteps path ++ pathSteps last ∨
        mkdirSteps path = [] ∧ vfsSteps path = .child [] :: pathSteps last) := by
  have whole : (cString path).take (vfsMaxPath - 1) = cString path :=
    List.take_of_length_le (Nat.le_pred_of_lt fits)
  cases parts : splitPath (cString path) with
  | none =>
      have noSlash := splitPath_none parts
      have rootless : (cString path).head? ≠ some slash := fun head =>
        noSlash (List.mem_of_mem_head? head)
      have split : mkdirSplit path = (none, (cString path).take (vfsMaxName - 1)) := by
        rw [mkdirSplit, whole, parts]
      have steps : mkdirSteps path = [] := by
        rw [mkdirSteps, split]
      refine ⟨cString path, noSlash, by rw [split], .inl ?_⟩
      rw [steps, List.nil_append]
      change pathSteps (if (cString path).head? = some slash then (cString path).tail
        else cString path) = _
      rw [if_neg rootless]
  | some both =>
      obtain ⟨dir, last⟩ := both
      obtain ⟨isWhole, noSlash⟩ := splitPath_some parts
      have split : mkdirSplit path =
          (if dir = [] then none else some dir, last.take (vfsMaxName - 1)) := by
        rw [mkdirSplit, whole, parts]
      refine ⟨last, noSlash, by rw [split], ?_⟩
      rcases vfsSteps_split isWhole noSlash with ⟨rfl, same⟩ | ⟨some, same⟩ | ⟨rfl, none, same⟩
      · left
        rw [same, mkdirSteps, split, if_pos rfl]
        rfl
      · left
        rw [same, mkdirSteps, split, if_neg some]
      · right
        refine ⟨?_, same⟩
        rw [mkdirSteps, split, if_neg (List.cons_ne_nil _ _)]
        exact none

theorem mkdirSplit_zero : 0 ∉ (mkdirSplit path).2 := by
  have string : 0 ∉ cString path := cString_zero path
  rw [mkdirSplit]
  split
  · rename_i dir last parts
    intro zero
    obtain ⟨isWhole, -⟩ := splitPath_some parts
    have inside : 0 ∈ (cString path).take (vfsMaxPath - 1) := by
      rw [isWhole]
      exact List.mem_append_right _ (List.mem_cons_of_mem _ (List.mem_of_mem_take zero))
    exact string (List.mem_of_mem_take inside)
  · exact fun zero => string (List.mem_of_mem_take zero)

theorem mkdirSplit_fits : (mkdirSplit path).2.length ≤ vfsMaxName - 1 := by
  rw [mkdirSplit]
  split <;> exact List.length_take_le ..

end ZurichOS
