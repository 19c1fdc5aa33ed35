import Mathlib.Data.List.Range
import Mathlib.Logic.Function.Basic
import ZurichOS.CString
import ZurichOS.Transitions

/-!
The environment of `shell_env.c` as a map from names to values.
-/

namespace ZurichOS

open Transitions

abbrev maxEnvVars : Nat := 32
abbrev maxEnvKey : Nat := 32
abbrev maxEnvValue : Nat := 128

structure EnvVar where
  key : CString
  value : CString
  inUse : Bool

abbrev Env := Nat → EnvVar

/-- A pointer is none where it is `NULL`. -/
inductive EnvOp where
  | set (key value : Option CString)
  | unset (key : Option CString)

def EnvOp.key : EnvOp → Option CString
  | .set key _ => key
  | .unset key => key

namespace Env

/-- The first entry whose key compares equal. -/
def findKey (env : Env) (key : CString) : Option Nat :=
  (List.range maxEnvVars).find? fun i => (env i).inUse ∧ (env i).key = key

def findFree (env : Env) : Option Nat :=
  (List.range maxEnvVars).find? fun i => !(env i).inUse

/-- The value that comes back, and the table. -/
def envSet (env : Env) (key value : Option CString) : Int × Env :=
  match key, value with
  | some key, some value =>
      match env.findKey key with
      | some i =>
          (0, Function.update env i { env i with value := value.cut (maxEnvValue - 1) })
      | none =>
          match env.findFree with
          | some i =>
              (0, Function.update env i
                { key := key.cut (maxEnvKey - 1), value := value.cut (maxEnvValue - 1),
                  inUse := true })
          | none => (-1, env)
  | _, _ => (-1, env)

def envGet (env : Env) (key : Option CString) : Option CString :=
  (key.bind env.findKey).map fun i => (env i).value

def envUnset (env : Env) (key : Option CString) : Int × Env :=
  match key.bind env.findKey with
  | some i => (0, Function.update env i { env i with inUse := false })
  | none => (-1, env)

def step (env : Env) : EnvOp → Env
  | .set key value => (env.envSet key value).2
  | .unset key => (env.envUnset key).2

def empty : Env := fun _ => ⟨.ofString "", .ofString "", false⟩

def defaults : List EnvOp :=
  [("PATH", "/bin:/usr/bin:/sbin"), ("HOME", "/root"), ("USER", "root"), ("SHELL", "/bin/sh"),
    ("HOSTNAME", "zurich"), ("TERM", "vga"), ("PS1", "zurich:$PWD> "), ("PWD", "/")].map fun pair =>
      .set (some (.ofString pair.1)) (some (.ofString pair.2))

def envInit : Env := defaults.foldl step empty

def Distinct (env : Env) : Prop :=
  ∀ i < maxEnvVars, ∀ j < maxEnvVars, (env i).inUse = true → (env j).inUse = true →
    (env i).key = (env j).key → i = j

/-- The step is one of a map: it keeps the keys apart, a value that was set comes back, and the
values of the other keys stay. -/
structure MapStep (env : Env) (op : EnvOp) : Prop where
  distinct : (step env op).Distinct
  stored : ∀ key value, op = .set (some key) (some value) →
    (env.envSet (some key) (some value)).1 = 0 →
      (step env op).envGet (some key) = some (value.cut (maxEnvValue - 1))
  others : ∀ other, op.key ≠ some other →
    (step env op).envGet (some other) = env.envGet (some other)

/-- A key that is set is not cut, or there is no room for it. -/
def KeyFits (env : Env) : EnvOp → Prop
  | .set (some key) (some _) => key.chars.length ≤ maxEnvKey - 1 ∨ env.findFree = none
  | _ => True

structure Sound (env : Env) : Prop where
  distinct : env.Distinct
  short : ∀ i < maxEnvVars, (env i).inUse = true → (env i).key.chars.length ≤ maxEnvKey - 1

variable {env : Env} {key other value : CString}

theorem findKey_eq_some {i : Nat} (found : env.findKey key = some i) :
    i < maxEnvVars ∧ (env i).inUse = true ∧ (env i).key = key := by
  have hit := List.find?_some found
  have inside := List.mem_range.mp (List.mem_of_find?_eq_some found)
  simp only [Bool.decide_and, Bool.decide_eq_true, Bool.and_eq_true, decide_eq_true_eq] at hit
  exact ⟨inside, hit⟩

theorem findKey_eq_none (missing : env.findKey key = none) {i : Nat} (inside : i < maxEnvVars)
    (used : (env i).inUse = true) : (env i).key ≠ key := by
  intro same
  have unmet := List.find?_eq_none.mp missing i (List.mem_range.mpr inside)
  exact unmet (decide_eq_true ⟨used, same⟩)

/-- The entry that has the key is the one that is found. -/
theorem Sound.findKey (sound : env.Sound) {i : Nat} (inside : i < maxEnvVars)
    (used : (env i).inUse = true) : env.findKey (env i).key = some i := by
  cases found : env.findKey (env i).key with
  | none => exact absurd rfl (findKey_eq_none found inside used)
  | some j =>
      obtain ⟨insideJ, usedJ, same⟩ := findKey_eq_some found
      rw [sound.distinct j insideJ i inside usedJ used same]

theorem findFree_eq_some {i : Nat} (found : env.findFree = some i) :
    i < maxEnvVars ∧ (env i).inUse = false := by
  have hit := List.find?_some found
  exact ⟨List.mem_range.mp (List.mem_of_find?_eq_some found), by simpa using hit⟩

/-- A change of an entry that has another key before and after it is not seen. -/
theorem envGet_congr {after : Env} (slot : Nat) (same : ∀ i ≠ slot, after i = env i)
    (before : ¬ ((env slot).inUse = true ∧ (env slot).key = other))
    (behind : ¬ ((after slot).inUse = true ∧ (after slot).key = other)) :
    after.envGet (some other) = env.envGet (some other) := by
  have found : after.findKey other = env.findKey other := by
    rw [Env.findKey, Env.findKey]
    congr 1
    funext i
    by_cases here : i = slot
    · rw [here, decide_eq_false before, decide_eq_false behind]
    · rw [same i here]
  rw [envGet, envGet, Option.bind_some, Option.bind_some, found]
  refine Option.map_congr fun i member => ?_
  obtain ⟨-, used, isOther⟩ := findKey_eq_some member
  rw [same i]
  rintro rfl
  exact before ⟨used, isOther⟩

theorem Sound.envGet (sound : env.Sound) {i : Nat} (inside : i < maxEnvVars)
    (used : (env i).inUse = true) : env.envGet (some (env i).key) = some (env i).value := by
  rw [Env.envGet, Option.bind_some, sound.findKey inside used]
  rfl

/-- An entry keeps the table sound if its key is short and that of no other one. -/
theorem Sound.update (sound : env.Sound) (slot : Nat) {var : EnvVar}
    (short : var.inUse = true → var.key.chars.length ≤ maxEnvKey - 1)
    (fresh : var.inUse = true → ∀ i < maxEnvVars, i ≠ slot → (env i).inUse = true →
      (env i).key ≠ var.key) : Sound (Function.update env slot var) := by
  refine ⟨fun i insideI j insideJ usedI usedJ same => ?_, fun i inside used => ?_⟩
  · by_cases isI : i = slot
    · by_cases isJ : j = slot
      · rw [isI, isJ]
      · rw [isI, Function.update_self] at usedI same
        rw [Function.update_of_ne isJ] at usedJ same
        exact absurd same.symm (fresh usedI j insideJ isJ usedJ)
    · rw [Function.update_of_ne isI] at usedI same
      by_cases isJ : j = slot
      · rw [isJ, Function.update_self] at usedJ same
        exact absurd same (fresh usedJ i insideI isI usedI)
      · rw [Function.update_of_ne isJ] at usedJ same
        exact sound.distinct i insideI j insideJ usedI usedJ same
  · by_cases here : i = slot
    · rw [here, Function.update_self] at used ⊢
      exact short used
    · rw [Function.update_of_ne here] at used ⊢
      exact sound.short i inside used

theorem envSet_found {i : Nat} (found : env.findKey key = some i) :
    env.envSet (some key) (some value) =
      (0, Function.update env i { env i with value := value.cut (maxEnvValue - 1) }) := by
  rw [envSet, found]

theorem envSet_free {i : Nat} (missing : env.findKey key = none) (free : env.findFree = some i) :
    env.envSet (some key) (some value) =
      (0, Function.update env i
        { key := key.cut (maxEnvKey - 1), value := value.cut (maxEnvValue - 1), inUse := true }) := by
  rw [envSet, missing, free]

theorem envSet_full (missing : env.findKey key = none) (full : env.findFree = none) :
    env.envSet (some key) (some value) = (-1, env) := by
  rw [envSet, missing, full]

/-- A step that leaves the table as it is. -/
theorem MapStep.idle (sound : env.Sound) {op : EnvOp} (idle : step env op = env)
    (refused : ∀ key value, op = .set (some key) (some value) →
      (env.envSet (some key) (some value)).1 ≠ 0) : Sound (step env op) ∧ MapStep env op := by
  rw [idle]
  refine ⟨sound, by rw [idle]; exact sound.distinct, fun key value is zero => ?_, fun other _ => ?_⟩
  · exact absurd zero (refused key value is)
  · rw [idle]

/-- A step that gives a value to a key. -/
theorem MapStep.store {slot : Nat} {var : EnvVar} (inside : slot < maxEnvVars)
    (is : env.envSet (some key) (some value) = (0, Function.update env slot var))
    (isVar : var.inUse = true ∧ var.key = key ∧ var.value = value.cut (maxEnvValue - 1))
    (before : (env slot).inUse = true → (env slot).key = key)
    (sound : Sound (Function.update env slot var)) :
    Sound (step env (.set (some key) (some value))) ∧
      MapStep env (.set (some key) (some value)) := by
  have after : step env (.set (some key) (some value)) = Function.update env slot var :=
    congrArg Prod.snd is
  obtain ⟨used, rfl, isValue⟩ := isVar
  rw [after]
  refine ⟨sound, ?_⟩
  refine { distinct := after ▸ sound.distinct, stored := ?_, others := ?_ }
  · rintro _ _ ⟨⟩ -
    have stored := sound.envGet inside
    rw [Function.update_self] at stored
    rw [after, stored used, isValue]
  · intro other isOther
    have differs : var.key ≠ other := fun same => isOther (congrArg some same)
    rw [after]
    refine envGet_congr slot (fun i outside => Function.update_of_ne outside _ _) ?_ ?_
    · rintro ⟨usedBefore, same⟩
      exact differs ((before usedBefore).symm.trans same)
    · rw [Function.update_self]
      exact fun both => differs both.2

theorem MapStep.set (sound : env.Sound) (key value : CString)
    (fits : KeyFits env (.set (some key) (some value))) :
    Sound (step env (.set (some key) (some value))) ∧
      MapStep env (.set (some key) (some value)) := by
  cases found : env.findKey key with
  | some i =>
      obtain ⟨inside, used, isKey⟩ := findKey_eq_some found
      refine MapStep.store inside (envSet_found found) ⟨used, isKey, rfl⟩ (fun _ => isKey)
        (sound.update i (fun _ => sound.short i inside used) ?_)
      intro _ j insideJ differs usedJ same
      exact differs (sound.distinct j insideJ i inside usedJ used same)
  | none =>
      cases free : env.findFree with
      | none =>
          have full := @envSet_full env key value found free
          refine MapStep.idle sound (congrArg Prod.snd full) ?_
          rintro _ _ ⟨⟩
          rw [full]
          exact (by decide : (-1 : Int) ≠ 0)
      | some i =>
          obtain ⟨inside, unused⟩ := findFree_eq_some free
          have short : key.chars.length ≤ maxEnvKey - 1 :=
            fits.resolve_right (by rw [free]; exact Option.some_ne_none i)
          have whole : key.cut (maxEnvKey - 1) = key := CString.cut_eq short
          refine MapStep.store inside (envSet_free found free) ⟨rfl, whole, rfl⟩ ?_
            (sound.update i (fun _ => CString.cut_length_le _ _) ?_)
          · rw [unused]
            exact nofun
          · intro _ j insideJ _ usedJ
            dsimp only
            rw [whole]
            exact findKey_eq_none found insideJ usedJ

theorem MapStep.unset (sound : env.Sound) (key : Option CString) :
    Sound (step env (.unset key)) ∧ MapStep env (.unset key) := by
  cases found : key.bind env.findKey with
  | none =>
      have idle : step env (.unset key) = env := by rw [step, envUnset, found]
      exact MapStep.idle sound idle nofun
  | some i =>
      obtain ⟨name, rfl, at_key⟩ := Option.bind_eq_some_iff.mp found
      obtain ⟨inside, used, isKey⟩ := findKey_eq_some at_key
      have after : step env (.unset (some name)) =
          Function.update env i { env i with inUse := false } := by
        rw [step, envUnset, found]
      have kept : Sound (Function.update env i { env i with inUse := false }) :=
        sound.update i nofun nofun
      rw [after]
      refine ⟨kept, after ▸ kept.distinct, nofun, fun other isOther => ?_⟩
      rw [after]
      refine envGet_congr i (fun j outside => Function.update_of_ne outside _ _) ?_ ?_
      · rintro ⟨-, same⟩
        exact isOther (congrArg some (isKey.symm.trans same))
      · rw [Function.update_self]
        exact fun both => nomatch both.1

theorem Sound.step (sound : env.Sound) (op : EnvOp) (fits : KeyFits env op) :
    (step env op).Sound ∧ MapStep env op := by
  rcases op with ⟨_ | key, _ | value⟩ | key
  · exact MapStep.idle sound rfl nofun
  · exact MapStep.idle sound rfl nofun
  · exact MapStep.idle sound rfl nofun
  · exact MapStep.set sound key value fits
  · exact MapStep.unset sound key

/-- A key that is cut when it is stored is not found again. -/
theorem MapStep.keyFits (sound : env.Sound) {op : EnvOp} (isMap : MapStep env op) :
    KeyFits env op := by
  rcases op with ⟨_ | key, _ | value⟩ | key
  · trivial
  · trivial
  · trivial
  · by_contra unfit
    have long : ¬ key.chars.length ≤ maxEnvKey - 1 := fun short => unfit (.inl short)
    have differs {str : CString} (short : str.chars.length ≤ maxEnvKey - 1) : str ≠ key :=
      fun same => long (same ▸ short)
    have missing : env.findKey key = none := by
      refine List.find?_eq_none.mpr fun i inside => ?_
      rw [decide_eq_true_eq]
      rintro ⟨used, same⟩
      exact differs (sound.short i (List.mem_range.mp inside) used) same
    obtain ⟨i, free⟩ := Option.ne_none_iff_exists'.mp fun full => unfit (.inr full)
    have is := @envSet_free env key value i missing free
    have stored := isMap.stored key value rfl (congrArg Prod.fst is)
    have after : step env (.set (some key) (some value)) = _ := congrArg Prod.snd is
    rw [after, envGet, Option.bind_some] at stored
    obtain ⟨j, at_key, -⟩ := Option.map_eq_some_iff.mp stored
    obtain ⟨insideJ, usedJ, isKey⟩ := findKey_eq_some at_key
    dsimp only at usedJ isKey
    by_cases here : j = i
    · rw [here, Function.update_self] at isKey
      exact differs (CString.cut_length_le _ _) isKey
    · rw [Function.update_of_ne here] at isKey usedJ
      exact differs (sound.short j insideJ usedJ) isKey
  · trivial

theorem sound_empty : empty.Sound :=
  ⟨fun _ _ _ _ used => (nomatch used), fun _ _ used => (nomatch used)⟩

theorem sound_envInit : envInit.Sound := by
  refine List.foldlRecOn (motive := Sound) defaults _ sound_empty fun env sound op member => ?_
  refine (sound.step op ?_).1
  obtain ⟨pair, listed, rfl⟩ := List.mem_map.mp member
  refine .inl (Nat.le_trans (CString.ofString_length_le pair.1) ?_)
  have short : ∀ pair ∈ [("PATH", "/bin:/usr/bin:/sbin"), ("HOME", "/root"), ("USER", "root"),
      ("SHELL", "/bin/sh"), ("HOSTNAME", "zurich"), ("TERM", "vga"), ("PS1", "zurich:$PWD> "),
      ("PWD", "/")], pair.1.length ≤ 31 := by decide
  exact short pair listed

/-- In every run the environment is a map exactly if no key that is stored has to be cut. -/
theorem environment_map_iff (ops : List EnvOp) :
    Along step MapStep envInit ops ↔ Along step KeyFits envInit ops :=
  along_congr Sound (fun _ op sound fits => (sound.step op fits).1)
    (fun _ op sound => ⟨fun isMap => isMap.keyFits sound, fun fits => (sound.step op fits).2⟩)
    sound_envInit ops

def longKey : CString := ⟨List.replicate 32 65, by decide⟩

/-- A key of 32 characters is stored as its first 31, and its value does not come back. -/
theorem long_key_lost : ¬ Along step MapStep envInit
    [.set (some longKey) (some (.ofString "1"))] := by
  rintro ⟨isMap, -⟩
  exact (isMap.keyFits sound_envInit).elim (by decide) (by decide)

end Env

end ZurichOS
