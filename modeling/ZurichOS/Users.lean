import ZurichOS.ByteBuffer
import ZurichOS.Words
import Mathlib.Logic.Function.Basic

set_option linter.all false

/-!
The tables of users and groups of `kernel/security/security.c`.
-/

namespace ZurichOS

open ByteBuffer Words

abbrev rootUid : Nat := 0
abbrev rootGid : Nat := 0
abbrev maxUsers : Nat := 64
abbrev maxGroups : Nat := 64
abbrev maxUsernameLen : Nat := 32
abbrev maxGroupnameLen : Nat := 32
abbrev homeDirLen : Nat := 64

/-- `user_t`; the arrays of characters hold strings. -/
structure User where
  uid : Nat
  gid : Nat
  username : List UInt8
  passwordHash : List UInt8
  homeDir : List UInt8
  shell : List UInt8
  active : Bool

/-- `group_t`; `members` has the first `member_count` of the array. -/
structure Group where
  gid : Nat
  groupname : List UInt8
  members : List Nat
  active : Bool

structure SecurityTables where
  users : Nat → User
  groups : Nat → Group

def zeroUser : User := ⟨0, 0, [], [], [], [], false⟩

def zeroGroup : Group := ⟨0, [], [], false⟩

/-- What `security_init` clears the tables to. -/
def zeroTables : SecurityTables := ⟨fun _ => zeroUser, fun _ => zeroGroup⟩

/-- A `char` as an `int`, and that as a word. -/
def charWord (char : UInt8) : Nat :=
  if char.toNat < 128 then char.toNat else char.toNat + 4294967040

def hashDigit (nibble : Nat) : UInt8 :=
  if nibble < 10 then UInt8.ofNat (0x30 + nibble) else UInt8.ofNat (0x61 + nibble - 10)

def simpleHash (input : List UInt8) : List UInt8 :=
  let hash := (cString input).foldl (fun hash char => u32 (hash <<< 5 + hash + charWord char)) 5381
  (List.range 8).map fun i => hashDigit (hash >>> (28 - i * 4) &&& 0xF)

/-- `"/home/"` and `"/bin/sh"`. -/
def homePrefix : List UInt8 := [0x2F, 0x68, 0x6F, 0x6D, 0x65, 0x2F]

def defaultShell : List UInt8 := [0x2F, 0x62, 0x69, 0x6E, 0x2F, 0x73, 0x68]

section Users

variable (s : SecurityTables)

/-- The first place of the table that a loop stops at. -/
def firstUser (stops : User → Bool) : Option Nat :=
  (List.range maxUsers).find? fun i => stops (s.users i)

def SecurityTables.setUser (i : Nat) (user : User) : SecurityTables :=
  { s with users := Function.update s.users i user }

def userGetByUid (uid : Nat) : Option Nat := firstUser s fun user => user.active && user.uid = uid

def userGetByName (username : List UInt8) : Option Nat :=
  firstUser s fun user => user.active && user.username = cString username

/-- The call has no result where the name runs over the end of `home_dir`. -/
def userAdd (username password : List UInt8) (uid gid : Nat) : Option (Int × SecurityTables) :=
  match userGetByUid s uid with
  | some _ => some (-1, s)
  | none =>
      match firstUser s fun user => !user.active with
      | none => some (-2, s)
      | some i =>
          let homeDir := homePrefix ++ cString username
          if homeDirLen ≤ homeDir.length then none
          else some (0, s.setUser i
            { uid, gid, username := (cString username).take (maxUsernameLen - 1)
              passwordHash := simpleHash password, homeDir, shell := defaultShell
              active := true })

def userRemove (uid : Nat) : Int × SecurityTables :=
  if uid = rootUid then (-1, s)
  else
    match userGetByUid s uid with
    | some i => (0, s.setUser i zeroUser)
    | none => (-1, s)

def userAuthenticate (username password : List UInt8) : Int :=
  match userGetByName s username with
  | none => -1
  | some i =>
      if (s.users i).passwordHash = simpleHash password then int32 (s.users i).uid else -1

def userSetPassword (uid : Nat) (password : List UInt8) : Int × SecurityTables :=
  match userGetByUid s uid with
  | none => (-1, s)
  | some i => (0, s.setUser i { s.users i with passwordHash := simpleHash password })

end Users

section Groups

variable (s : SecurityTables)

def firstGroup (stops : Group → Bool) : Option Nat :=
  (List.range maxGroups).find? fun i => stops (s.groups i)

def SecurityTables.setGroup (i : Nat) (group : Group) : SecurityTables :=
  { s with groups := Function.update s.groups i group }

def groupGetByGid (gid : Nat) : Option Nat :=
  firstGroup s fun group => group.active && group.gid = gid

def groupAdd (groupname : List UInt8) (gid : Nat) : Int × SecurityTables :=
  match groupGetByGid s gid with
  | some _ => (-1, s)
  | none =>
      match firstGroup s fun group => !group.active with
      | none => (-2, s)
      | some i => (0, s.setGroup i
          { gid, groupname := (cString groupname).take (maxGroupnameLen - 1), members := []
            active := true })

def groupRemove (gid : Nat) : Int × SecurityTables :=
  if gid = rootGid then (-1, s)
  else
    match groupGetByGid s gid with
    | some i => (0, s.setGroup i zeroGroup)
    | none => (-1, s)

def groupAddMember (gid uid : Nat) : Int × SecurityTables :=
  match groupGetByGid s gid with
  | none => (-1, s)
  | some i =>
      let group := s.groups i
      if uid ∈ group.members then (0, s)
      else if maxUsers ≤ group.members.length then (-2, s)
      else (0, s.setGroup i { group with members := group.members ++ [uid] })

def groupRemoveMember (gid uid : Nat) : Int × SecurityTables :=
  match groupGetByGid s gid with
  | none => (-1, s)
  | some i =>
      let group := s.groups i
      if uid ∈ group.members then
        (0, s.setGroup i { group with members := group.members.erase uid })
      else (-1, s)

def groupIsMember (gid uid : Nat) : Bool :=
  match groupGetByGid s gid with
  | none => false
  | some i => uid ∈ (s.groups i).members

end Groups

inductive SecurityCall where
  | userAdd (username password : List UInt8) (uid gid : Nat)
  | userRemove (uid : Nat)
  | userSetPassword (uid : Nat) (password : List UInt8)
  | groupAdd (groupname : List UInt8) (gid : Nat)
  | groupRemove (gid : Nat)
  | groupAddMember (gid uid : Nat)
  | groupRemoveMember (gid uid : Nat)

def SecurityCall.run (s : SecurityTables) : SecurityCall → Option (Int × SecurityTables)
  | .userAdd username password uid gid => ZurichOS.userAdd s username password uid gid
  | .userRemove uid => some (ZurichOS.userRemove s uid)
  | .userSetPassword uid password => some (ZurichOS.userSetPassword s uid password)
  | .groupAdd groupname gid => some (ZurichOS.groupAdd s groupname gid)
  | .groupRemove gid => some (ZurichOS.groupRemove s gid)
  | .groupAddMember gid uid => some (ZurichOS.groupAddMember s gid uid)
  | .groupRemoveMember gid uid => some (ZurichOS.groupRemoveMember s gid uid)

/-- The passwords last set for the uids, after a call with this result. -/
def SecurityCall.lastSet (last : Nat → Option (List UInt8)) (result : Int) :
    SecurityCall → Nat → Option (List UInt8)
  | .userAdd _ password uid _ | .userSetPassword uid password =>
      if result = 0 then Function.update last uid (some password) else last
  | .userRemove uid => if result = 0 then Function.update last uid none else last
  | _ => last

/-- The tables after some calls, and the passwords last set. -/
def securityRun (s : SecurityTables) (last : Nat → Option (List UInt8)) :
    List SecurityCall → Option (SecurityTables × (Nat → Option (List UInt8)))
  | [] => some (s, last)
  | call :: rest =>
      match call.run s with
      | none => none
      | some (result, t) => securityRun t (call.lastSet last result) rest

/-- Each uid belongs to one active user, who has the hash of the password last set for it. -/
structure UsersSound (s : SecurityTables) (last : Nat → Option (List UInt8)) : Prop where
  apart : ∀ i < maxUsers, ∀ j < maxUsers, (s.users i).active → (s.users j).active →
    (s.users i).uid = (s.users j).uid → i = j
  hashed : ∀ i < maxUsers, (s.users i).active →
    ∃ password, last (s.users i).uid = some password ∧
      (s.users i).passwordHash = simpleHash password

variable {s t : SecurityTables} {last : Nat → Option (List UInt8)} {result : Int}
  {username password : List UInt8} {i uid gid : Nat}

section Steps

theorem firstUser_some {stops : User → Bool} (found : firstUser s stops = some i) :
    i < maxUsers ∧ stops (s.users i) = true := by
  obtain ⟨holds, inside, -⟩ := List.find?_range_eq_some.mp found
  exact ⟨List.mem_range.mp inside, holds⟩

theorem firstUser_none {stops : User → Bool} (missing : firstUser s stops = none)
    (inside : i < maxUsers) : stops (s.users i) = false := by
  have nowhere := List.find?_eq_none.mp missing i (List.mem_range.mpr inside)
  simpa using nowhere

theorem userGetByUid_some (found : userGetByUid s uid = some i) :
    i < maxUsers ∧ (s.users i).active = true ∧ (s.users i).uid = uid := by
  obtain ⟨inside, holds⟩ := firstUser_some found
  simpa [inside] using holds

theorem userGetByUid_none (missing : userGetByUid s uid = none) (inside : i < maxUsers)
    (active : (s.users i).active = true) : (s.users i).uid ≠ uid := by
  have not := firstUser_none missing inside
  simpa [active] using not

theorem setUser_same (s : SecurityTables) (i : Nat) (user : User) :
    (s.setUser i user).users i = user := Function.update_self ..

theorem setUser_other {user : User} {j : Nat} (other : j ≠ i) :
    (s.setUser i user).users j = s.users j := Function.update_of_ne other ..

/-- A user with a uid of its own and the hash of its password takes a place of the table. -/
theorem UsersSound.put (sound : UsersSound s last) (user : User)
    (hash : user.passwordHash = simpleHash password)
    (own : ∀ j < maxUsers, j ≠ i → (s.users j).active = true → (s.users j).uid ≠ user.uid) :
    UsersSound (s.setUser i user) (Function.update last user.uid (some password)) := by
  constructor
  · intro j insideJ k insideK activeJ activeK same
    by_cases isJ : j = i <;> by_cases isK : k = i
    · rw [isJ, isK]
    · subst isJ
      rw [setUser_same, setUser_other isK] at same
      rw [setUser_other isK] at activeK
      exact absurd same.symm (own k insideK isK activeK)
    · subst isK
      rw [setUser_same, setUser_other isJ] at same
      rw [setUser_other isJ] at activeJ
      exact absurd same (own j insideJ isJ activeJ)
    · rw [setUser_other isJ] at same activeJ
      rw [setUser_other isK] at same activeK
      exact sound.apart j insideJ k insideK activeJ activeK same
  · intro j inside activeJ
    by_cases isJ : j = i
    · subst isJ
      rw [setUser_same, Function.update_self]
      exact ⟨password, rfl, hash⟩
    · rw [setUser_other isJ] at activeJ ⊢
      rw [Function.update_of_ne (own j inside isJ activeJ)]
      exact sound.hashed j inside activeJ

theorem UsersSound.drop (sound : UsersSound s last) (inside : i < maxUsers)
    (active : (s.users i).active = true) :
    UsersSound (s.setUser i zeroUser) (Function.update last (s.users i).uid none) := by
  have stays : ∀ j, ((s.setUser i zeroUser).users j).active = true →
      j ≠ i ∧ (s.setUser i zeroUser).users j = s.users j := by
    intro j activeJ
    have other : j ≠ i := by
      rintro rfl
      rw [setUser_same] at activeJ
      cases activeJ
    exact ⟨other, setUser_other other⟩
  constructor
  · intro j insideJ k insideK activeJ activeK same
    obtain ⟨-, sameJ⟩ := stays j activeJ
    obtain ⟨-, sameK⟩ := stays k activeK
    rw [sameJ] at activeJ same
    rw [sameK] at activeK same
    exact sound.apart j insideJ k insideK activeJ activeK same
  · intro j insideJ activeJ
    obtain ⟨other, same⟩ := stays j activeJ
    rw [same] at activeJ ⊢
    have apart : (s.users j).uid ≠ (s.users i).uid := fun sameUid =>
      other (sound.apart j insideJ i inside activeJ active sameUid)
    rw [Function.update_of_ne apart]
    exact sound.hashed j insideJ activeJ

theorem userAdd_sound (sound : UsersSound s last)
    (ran : userAdd s username password uid gid = some (result, t)) :
    t.groups = s.groups ∧
      UsersSound t ((SecurityCall.userAdd username password uid gid).lastSet last result) := by
  rw [userAdd] at ran
  cases taken : userGetByUid s uid with
  | some i =>
      rw [taken] at ran
      obtain ⟨rfl, rfl⟩ := Prod.mk.inj (Option.some.inj ran)
      exact ⟨rfl, sound⟩
  | none =>
      rw [taken] at ran
      cases free : firstUser s fun user => !user.active with
      | none =>
          simp only [free] at ran
          obtain ⟨rfl, rfl⟩ := Prod.mk.inj (Option.some.inj ran)
          exact ⟨rfl, sound⟩
      | some i =>
          simp only [free] at ran
          split at ran
          · cases ran
          · obtain ⟨rfl, rfl⟩ := Prod.mk.inj (Option.some.inj ran)
            exact ⟨rfl, sound.put _ rfl fun j inside _ active =>
              userGetByUid_none taken inside active⟩

theorem userRemove_sound (sound : UsersSound s last) :
    UsersSound (userRemove s uid).2
      ((SecurityCall.userRemove uid).lastSet last (userRemove s uid).1) := by
  rw [userRemove]
  split
  · exact sound
  · cases found : userGetByUid s uid with
    | none => exact sound
    | some i =>
        obtain ⟨inside, active, rfl⟩ := userGetByUid_some found
        exact sound.drop inside active

theorem userSetPassword_sound (sound : UsersSound s last) :
    UsersSound (userSetPassword s uid password).2
      ((SecurityCall.userSetPassword uid password).lastSet last
        (userSetPassword s uid password).1) := by
  rw [userSetPassword]
  cases found : userGetByUid s uid with
  | none => exact sound
  | some i =>
      obtain ⟨inside, active, rfl⟩ := userGetByUid_some found
      refine sound.put { s.users i with passwordHash := simpleHash password } rfl
        fun j insideJ other activeJ same => ?_
      exact other (sound.apart j insideJ i inside activeJ active same)

theorem UsersSound.congr (sound : UsersSound s last) (same : t.users = s.users) :
    UsersSound t last := by
  constructor
  · rw [same]
    exact sound.apart
  · rw [same]
    exact sound.hashed

/-- The user functions leave the groups, and the group functions leave the users. -/
theorem userRemove_groups (s : SecurityTables) (uid : Nat) :
    (userRemove s uid).2.groups = s.groups := by
  unfold userRemove
  split
  · rfl
  · split <;> rfl

theorem userSetPassword_groups (s : SecurityTables) (uid : Nat) (password : List UInt8) :
    (userSetPassword s uid password).2.groups = s.groups := by
  unfold userSetPassword
  split <;> rfl

theorem groupAdd_users (s : SecurityTables) (groupname : List UInt8) (gid : Nat) :
    (groupAdd s groupname gid).2.users = s.users := by
  unfold groupAdd
  split
  · rfl
  · split <;> rfl

theorem groupRemove_users (s : SecurityTables) (gid : Nat) :
    (groupRemove s gid).2.users = s.users := by
  unfold groupRemove
  split
  · rfl
  · split <;> rfl

theorem groupAddMember_users (s : SecurityTables) (gid uid : Nat) :
    (groupAddMember s gid uid).2.users = s.users := by
  unfold groupAddMember
  split
  · rfl
  · dsimp only
    split_ifs <;> rfl

theorem groupRemoveMember_users (s : SecurityTables) (gid uid : Nat) :
    (groupRemoveMember s gid uid).2.users = s.users := by
  unfold groupRemoveMember
  split
  · rfl
  · dsimp only
    split_ifs <;> rfl

theorem call_sound (sound : UsersSound s last) {call : SecurityCall}
    (ran : call.run s = some (result, t)) : UsersSound t (call.lastSet last result) := by
  cases call with
  | userAdd username password uid gid => exact (userAdd_sound sound ran).2
  | userRemove uid =>
      obtain ⟨rfl, rfl⟩ : (userRemove s uid).1 = result ∧ (userRemove s uid).2 = t :=
        Prod.ext_iff.mp (Option.some.inj ran)
      exact userRemove_sound sound
  | userSetPassword uid password =>
      obtain ⟨rfl, rfl⟩ : (userSetPassword s uid password).1 = result ∧ (userSetPassword s uid password).2 = t :=
        Prod.ext_iff.mp (Option.some.inj ran)
      exact userSetPassword_sound sound
  | groupAdd groupname gid =>
      have after : (groupAdd s groupname gid).2 = t := congrArg Prod.snd (Option.some.inj ran)
      exact sound.congr (after ▸ groupAdd_users s groupname gid)
  | groupRemove gid =>
      have after : (groupRemove s gid).2 = t := congrArg Prod.snd (Option.some.inj ran)
      exact sound.congr (after ▸ groupRemove_users s gid)
  | groupAddMember gid uid =>
      have after : (groupAddMember s gid uid).2 = t := congrArg Prod.snd (Option.some.inj ran)
      exact sound.congr (after ▸ groupAddMember_users s gid uid)
  | groupRemoveMember gid uid =>
      have after : (groupRemoveMember s gid uid).2 = t := congrArg Prod.snd (Option.some.inj ran)
      exact sound.congr (after ▸ groupRemoveMember_users s gid uid)

end Steps

theorem run_sound (sound : UsersSound s last) {calls : List SecurityCall}
    {after : Nat → Option (List UInt8)} (ran : securityRun s last calls = some (t, after)) :
    UsersSound t after := by
  induction calls generalizing s last with
  | nil =>
      obtain ⟨rfl, rfl⟩ := Prod.mk.inj (Option.some.inj ran)
      exact sound
  | cons call rest ih =>
      rw [securityRun] at ran
      cases step : call.run s with
      | none =>
          rw [step] at ran
          cases ran
      | some next =>
          rw [step] at ran
          exact ih (call_sound sound step) ran

theorem zeroTables_sound : UsersSound zeroTables fun _ => none := by
  constructor
  · intro i _ j _ active
    cases active
  · intro i _ active
    cases active

theorem userGetByName_some (found : userGetByName s username = some i) :
    i < maxUsers ∧ (s.users i).active = true ∧ (s.users i).username = cString username := by
  obtain ⟨inside, holds⟩ := firstUser_some found
  simpa [inside] using holds

theorem userAuthenticate_unknown
    (unknown : ∀ i < maxUsers, (s.users i).active → (s.users i).username ≠ cString username) :
    userAuthenticate s username password = -1 := by
  rw [userAuthenticate]
  cases found : userGetByName s username with
  | none => rfl
  | some i =>
      obtain ⟨inside, active, named⟩ := userGetByName_some found
      exact absurd named (unknown i inside active)

/-- The only user of a name authenticates with the passwords that have its hash. -/
theorem userAuthenticate_only (inside : i < maxUsers) (active : (s.users i).active = true)
    (named : (s.users i).username = cString username)
    (only : ∀ j < maxUsers, (s.users j).active → (s.users j).username = cString username → j = i) :
    userAuthenticate s username password =
      if (s.users i).passwordHash = simpleHash password then int32 (s.users i).uid else -1 := by
  have found : userGetByName s username = some i := by
    cases result : userGetByName s username with
    | none =>
        have not := firstUser_none result inside
        simp [active, named] at not
    | some j =>
        obtain ⟨insideJ, activeJ, namedJ⟩ := userGetByName_some result
        rw [only j insideJ activeJ namedJ]
  rw [userAuthenticate, found]

/-- After any calls the active users have different uids, a name that one of them has is good
for its uid with the passwords that have the hash of the one last set, and the functions on users
leave every membership of a group as it is. -/
theorem users_authenticate {calls : List SecurityCall}
    (ran : securityRun zeroTables (fun _ => none) calls = some (s, last)) :
    (∀ i < maxUsers, ∀ j < maxUsers, (s.users i).active → (s.users j).active →
      (s.users i).uid = (s.users j).uid → i = j) ∧
    (∀ username, (∀ i < maxUsers, (s.users i).active →
        (s.users i).username ≠ cString username) →
      ∀ password, userAuthenticate s username password = -1) ∧
    (∀ username, ∀ i < maxUsers, (s.users i).active → (s.users i).username = cString username →
      (∀ j < maxUsers, (s.users j).active → (s.users j).username = cString username → j = i) →
      ∃ set, last (s.users i).uid = some set ∧
        ∀ password, userAuthenticate s username password =
          if simpleHash set = simpleHash password then int32 (s.users i).uid else -1) ∧
    (∀ uid, (userRemove s uid).2.groups = s.groups) ∧
    (∀ uid password, (userSetPassword s uid password).2.groups = s.groups) ∧
    ∀ username password uid gid result t,
      userAdd s username password uid gid = some (result, t) → t.groups = s.groups := by
  have sound := run_sound zeroTables_sound ran
  refine ⟨sound.apart, fun username unknown password => userAuthenticate_unknown unknown,
    fun username i inside active named only => ?_, userRemove_groups s, userSetPassword_groups s,
    fun username password uid gid result t added => (userAdd_sound sound added).1⟩
  obtain ⟨set, isSet, hash⟩ := sound.hashed i inside active
  refine ⟨set, isSet, fun password => ?_⟩
  rw [userAuthenticate_only inside active named only, hash]

/-- Two users with the name `bob` and the passwords `aB` and `cd`, and a group with the first. -/
def bobCalls : List SecurityCall :=
  [.groupAdd [0x77] 10, .userAdd [0x62, 0x6F, 0x62] [0x61, 0x42] 5 0, .groupAddMember 10 5,
    .userAdd [0x62, 0x6F, 0x62] [0x63, 0x64] 6 0]

theorem users_authenticate_bob : ∃ s last,
    securityRun zeroTables (fun _ => none) bobCalls = some (s, last) ∧
      (∀ uid, (userRemove s uid).2.groups = s.groups) := by
  obtain ⟨⟨s, last⟩, ran⟩ : ∃ after, securityRun zeroTables (fun _ => none) bobCalls = some after :=
    Option.isSome_iff_exists.mp (by decide)
  exact ⟨s, last, ran, (users_authenticate ran).2.2.2.1⟩

/-- Both users are active under the one name, the second is not let in with its password, the
first is with another one that has the same hash, and is in the group when it is gone. -/
theorem users_authenticate_fails : ∃ s last,
    securityRun zeroTables (fun _ => none) bobCalls = some (s, last) ∧
      (s.users 0).active = true ∧ (s.users 1).active = true ∧
      (s.users 0).username = (s.users 1).username ∧
      last 5 = some [0x61, 0x42] ∧ last 6 = some [0x63, 0x64] ∧
      userAuthenticate s [0x62, 0x6F, 0x62] [0x63, 0x64] = -1 ∧
      userAuthenticate s [0x62, 0x6F, 0x62] [0x62, 0x21] = 5 ∧
      groupIsMember (userRemove s 5).2 10 5 = true := by
  have names : (securityRun zeroTables (fun _ => none) bobCalls).map (fun after =>
      ((after.1.users 0).active, (after.1.users 1).active, (after.1.users 0).username,
        (after.1.users 1).username)) =
      some (true, true, [0x62, 0x6F, 0x62], [0x62, 0x6F, 0x62]) := by decide
  have answers : (securityRun zeroTables (fun _ => none) bobCalls).map (fun after =>
      (after.2 5, after.2 6, userAuthenticate after.1 [0x62, 0x6F, 0x62] [0x63, 0x64],
        userAuthenticate after.1 [0x62, 0x6F, 0x62] [0x62, 0x21],
        groupIsMember (userRemove after.1 5).2 10 5)) =
      some (some [0x61, 0x42], some [0x63, 0x64], -1, 5, true) := by decide
  obtain ⟨⟨s, last⟩, ran, result⟩ := Option.map_eq_some_iff.mp names
  rw [ran, Option.map_some, Option.some.injEq] at answers
  simp only [Prod.mk.injEq] at result answers
  obtain ⟨first, second, name, otherName⟩ := result
  exact ⟨s, last, ran, first, second, name.trans otherName.symm, answers⟩

end ZurichOS
