import ZurichOS.FatPlaces
import Mathlib.Data.List.Find
import Mathlib.Data.List.TakeWhile

set_option linter.all false

/-!
The names of a directory after `fat32_vfs_create`.  A name is compared as it is given, but
stored in the 8.3 form, and an entry at the end mark uncovers what lies behind it.
-/

namespace ZurichOS

open ByteBuffer Words LinkedChains

variable {fs : Fat32Fs} {d grown after : Disk} {xs ys : List Nat} {w : FatView}
  {front behind : List (Nat × Nat)} {place : Nat × Nat} {hit : Buffer → Bool}
  {name other : List UInt8} {memory : Nat → Bool}

/-- The entry is neither deleted nor part of a long name nor the label of the volume. -/
def isVisible (entry : Buffer) : Bool :=
  entry 0 ≠ 0xE5 && direntAttr entry ≠ fat32AttrLfn && direntAttr entry &&& fat32AttrVolumeId = 0

def FatView.namesAt (w : FatView) (places : List (Nat × Nat)) : List (List UInt8) :=
  (places.filter fun place => isVisible (w.entryAt place)).map
    fun place => bytesAt (w.entryAt place) 0 11

/-- The 11-byte names of the live entries. -/
def FatView.liveNames (w : FatView) (fs : Fat32Fs) (xs : List Nat) : List (List UInt8) :=
  w.namesAt (w.listed fs xs)

/-- The places in front of the first free one, and those behind it up to the next end mark. -/
def FatView.around (w : FatView) (fs : Fat32Fs) (xs : List Nat) : List (Nat × Nat) :=
  (fs.places xs).takeWhile (fun place => ¬ w.IsFree place) ++
    (((fs.places xs).dropWhile fun place => ¬ w.IsFree place).drop 1).takeWhile
      fun place => w.entryAt place 0 ≠ 0

def entryOf (name83 : List UInt8) : Buffer := fun k => name83.getD k 0

/-- The name reads back from its own 8.3 form, no entry answers to it yet, and the 8.3 names
that the directory then has are all different. -/
structure NameFits (w : FatView) (fs : Fat32Fs) (xs : List Nat) (name : List UInt8) : Prop where
  faithful : nameMatch name (entryOf (fat32NameTo83 name)) = true
  alive : (fat32NameTo83 name).getD 0 0 ≠ 0xE5
  fresh : w.findIn fs (findsEntry name) xs = none
  distinct : (fat32NameTo83 name :: w.namesAt (w.around fs xs)).Nodup

/-- The place of the new entry: the first free one, or the first of the cluster that the
directory has grown by. -/
def NewPlace (fs : Fat32Fs) (d after : Disk) (xs : List Nat) (place : Nat × Nat) : Prop :=
  match (fs.places xs).find? fun place => (d.view fs).IsFree place with
  | some free => place = free
  | none => place.2 = 0 ∧ ∃ last ∈ xs.getLast?, (after.view fs).next last = place.1

/-- The name leads to the new entry, all names that led to an entry lead to the same one, and
no two live entries have the same name. -/
structure NamesConsistent (fs : Fat32Fs) (d after : Disk) (xs : List Nat) (start : Nat)
    (name : List UInt8) : Prop where
  found : ∃ place, NewPlace fs d after xs place ∧ after.lookupPlace fs start name = some place
  kept : ∀ other place, d.lookupPlace fs start other = some place →
    after.lookupPlace fs start other = some place
  distinct : ∀ zs, after.HasChain fs zs → zs.head?.getD 0 = start →
    ((after.view fs).liveNames fs zs).Nodup

section Names

theorem nameTo83_length (name : List UInt8) : (fat32NameTo83 name).length = 11 := by
  simp only [fat32NameTo83, pad, List.length_append, List.length_map, List.length_take,
    List.length_replicate]
  omega

theorem upperByte_ne_zero {c : UInt8} (nonzero : c ≠ 0) : upperByte c ≠ 0 := by
  rw [upperByte]
  split
  · rename_i letter
    intro zero
    rw [UInt8.sub_eq_iff_eq_add.mp zero] at letter
    exact absurd letter.1 (by decide)
  · exact nonzero

/-- No 8.3 name begins with the end mark. -/
theorem nameTo83_first (name : List UInt8) : (fat32NameTo83 name).getD 0 0 ≠ 0 := by
  have terminated : ∀ c ∈ cString name, c ≠ 0 := by
    intro c member
    have kept := List.mem_takeWhile_imp member
    exact of_decide_eq_true kept
  rw [fat32NameTo83]
  cases isName : cString name with
  | nil => decide
  | cons c rest =>
      have nonzero := terminated c (isName ▸ List.mem_cons_self ..)
      by_cases dot : c ≠ 0x2E
      · have kept : decide (c ≠ 0x2E) = true := decide_eq_true dot
        rw [List.takeWhile_cons, if_pos kept]
        exact upperByte_ne_zero nonzero
      · have ends : ¬ decide (c ≠ 0x2E) = true := by rwa [decide_eq_true_iff]
        rw [List.takeWhile_cons, if_neg ends]
        exact (by decide : (0x20 : UInt8) ≠ 0)

theorem nameMatch_trans {first second : List UInt8} {entry own : Buffer}
    (matches_first : nameMatch first own = true) (matches_second : nameMatch second own = true)
    (matched : nameMatch second entry = true) : nameMatch first entry = true := by
  rw [nameMatch, beq_iff_eq] at *
  rw [matches_first, ← matches_second, matched]

theorem findsEntry_eq (name : List UInt8) (entry : Buffer) :
    findsEntry name entry = (isVisible entry && nameMatch name entry) := rfl

end Names

theorem isVisible_nameOnly : NameOnly isVisible := by
  intro entry other same
  rw [isVisible, isVisible, direntAttr, direntAttr, same 0 (by decide), same 11 (by decide)]

theorem namesAt_congr {w' : FatView} {places : List (Nat × Nat)}
    (same : ∀ place ∈ places, ∀ k < 12, w'.entryAt place k = w.entryAt place k) :
    w'.namesAt places = w.namesAt places := by
  have visible : places.filter (fun place => isVisible (w'.entryAt place)) =
      places.filter fun place => isVisible (w.entryAt place) :=
    List.filter_congr fun place member => isVisible_nameOnly _ _ (same place member)
  rw [FatView.namesAt, FatView.namesAt, visible]
  apply List.map_congr_left
  intro place member
  apply bytesAt_congr
  intro k small
  exact same place (List.mem_filter.mp member).1 _ (by omega)

theorem namesAt_append (first second : List (Nat × Nat)) :
    w.namesAt (first ++ second) = w.namesAt first ++ w.namesAt second := by
  rw [FatView.namesAt, List.filter_append, List.map_append]
  rfl

section Listing

theorem slot_find (slot : w.Slot fs xs front place behind) :
    (fs.places xs).find? (fun place => w.IsFree place) = some place := by
  rw [slot.split, List.find?_append]
  have none : front.find? (fun place => w.IsFree place) = none := by
    rw [List.find?_eq_none]
    intro other member
    rw [decide_eq_true_iff]
    exact slot.passed other member
  rw [none, Option.none_or, List.find?_cons_of_pos]
  exact decide_eq_true slot.free

theorem slot_cut (slot : w.Slot fs xs front place behind) :
    (fs.places xs).takeWhile (fun place => ¬ w.IsFree place) = front ∧
      (fs.places xs).dropWhile (fun place => ¬ w.IsFree place) = place :: behind := by
  have passed : ∀ other ∈ front, decide (¬ w.IsFree other) = true :=
    fun other member => decide_eq_true (slot.passed other member)
  have stops : ¬ decide (¬ w.IsFree place) = true := by
    rw [decide_eq_true_iff]
    exact not_not.mpr slot.free
  rw [slot.split, List.takeWhile_append_of_pos passed, List.dropWhile_append_of_pos passed,
    List.takeWhile_cons, if_neg stops, List.dropWhile_cons, if_neg stops, List.append_nil]
  exact ⟨rfl, rfl⟩

theorem slot_unique {front' behind' : List (Nat × Nat)} {place' : Nat × Nat}
    (slot : w.Slot fs xs front place behind) (again : w.Slot fs xs front' place' behind') :
    front = front' ∧ place = place' ∧ behind = behind' := by
  have cut := slot_cut slot
  rw [(slot_cut again).1, (slot_cut again).2] at cut
  exact ⟨cut.1.symm, (List.cons.inj cut.2).1.symm, (List.cons.inj cut.2).2.symm⟩

theorem slot_around (slot : w.Slot fs xs front place behind) :
    w.around fs xs = front ++ behind.takeWhile fun place => w.entryAt place 0 ≠ 0 := by
  rw [FatView.around, (slot_cut slot).1, (slot_cut slot).2]
  rfl

/-- What is read before the entry is made: up to the free place, or past it if it is deleted. -/
theorem slot_listed (slot : w.Slot fs xs front place behind) :
    w.listed fs xs = if w.entryAt place 0 = 0 then front
      else front ++ place :: behind.takeWhile fun place => w.entryAt place 0 ≠ 0 := by
  have passed : ∀ other ∈ front, decide (w.entryAt other 0 ≠ 0) = true := by
    intro other member
    exact decide_eq_true fun ended => slot.passed other member (.inl ended)
  rw [FatView.listed, slot.split, List.takeWhile_append_of_pos passed, List.takeWhile_cons]
  by_cases ended : w.entryAt place 0 = 0
  · have stops : ¬ decide (w.entryAt place 0 ≠ 0) = true := by
      rw [decide_eq_true_iff]
      exact not_not.mpr ended
    rw [if_neg stops, if_pos ended, List.append_nil]
  · have goes : decide (w.entryAt place 0 ≠ 0) = true := decide_eq_true ended
    rw [if_pos goes, if_neg ended]

/-- The free place of the directory, or of the cluster of zeros that it went on with. -/
theorem lengthened_cases (sound : fs.Sound) (lengthened : Lengthened fs d grown xs ys)
    (slot : (grown.view fs).Slot fs (xs ++ ys) front place behind) :
    (ys = [] ∧ (d.view fs).Slot fs xs front place behind) ∨
      (front = fs.places xs ∧ (∀ other ∈ fs.places xs, ¬ (d.view fs).IsFree other) ∧
        (∃ new more, ys = new :: more ∧ place = (new, 0)) ∧
        ∀ other ∈ behind, (grown.view fs).entryAt other 0 = 0) := by
  have same : ∀ other ∈ fs.places xs,
      (grown.view fs).entryAt other = (d.view fs).entryAt other := by
    intro other member
    exact congrArg (direntAt · other.2) (lengthened.same _ (mem_places.mp member).1)
  have sameFree : ∀ other ∈ fs.places xs,
      ((grown.view fs).IsFree other ↔ (d.view fs).IsFree other) := by
    intro other member
    rw [FatView.IsFree, FatView.IsFree, same other member]
  cases ys with
  | nil =>
      left
      rw [List.append_nil] at slot
      have split := slot.split
      refine ⟨rfl, split, fun other member => ?_, ?_⟩
      · rw [← sameFree other (split ▸ List.mem_append_left _ member)]
        exact slot.passed other member
      · rw [← sameFree place (split ▸ List.mem_append_right _ (List.mem_cons_self ..))]
        exact slot.free
  | cons new more =>
      right
      have full := lengthened.full.resolve_left (List.cons_ne_nil _ _)
      have zero : ∀ other ∈ fs.places (new :: more), (grown.view fs).entryAt other 0 = 0 := by
        intro other member
        exact lengthened.zero _ (mem_places.mp member).1 _
      obtain ⟨count, isCount⟩ : ∃ count, fs.entriesPerCluster = count + 1 :=
        ⟨_, (Nat.sub_add_cancel sound.entries_pos).symm⟩
      obtain ⟨tail, isTail⟩ : ∃ tail, fs.places (new :: more) = (new, 0) :: tail := by
        rw [places_cons, isCount, List.range_succ_eq_map]
        exact ⟨_, rfl⟩
      have ownSlot : (grown.view fs).Slot fs (xs ++ new :: more) (fs.places xs) (new, 0) tail := by
        refine ⟨by rw [places_append, isTail], fun other member => ?_, ?_⟩
        · rw [sameFree other member]
          exact full other member
        · exact .inl (zero _ (isTail ▸ List.mem_cons_self ..))
      obtain ⟨isFront, isPlace, isBehind⟩ := slot_unique slot ownSlot
      refine ⟨isFront, full, ⟨new, more, rfl, isPlace⟩, fun other member => ?_⟩
      rw [isBehind] at member
      exact zero other (isTail ▸ List.mem_cons_of_mem _ member)

theorem lengthened_entry (lengthened : Lengthened fs d grown xs ys) {other : Nat × Nat}
    (member : other ∈ fs.places xs) :
    (grown.view fs).entryAt other = (d.view fs).entryAt other :=
  congrArg (direntAt · other.2) (lengthened.same _ (mem_places.mp member).1)

/-- What is around the free place is known before the directory grows. -/
theorem lengthened_around (sound : fs.Sound) (lengthened : Lengthened fs d grown xs ys)
    (slot : (grown.view fs).Slot fs (xs ++ ys) front place behind) :
    (d.view fs).around fs xs =
      front ++ behind.takeWhile fun place => (grown.view fs).entryAt place 0 ≠ 0 := by
  rcases lengthened_cases sound lengthened slot with ⟨rfl, own⟩ | ⟨rfl, full, _, zero⟩
  · rw [slot_around own]
    congr 1
    apply takeWhile_congr
    intro other member
    rw [lengthened_entry lengthened]
    rw [own.split]
    exact List.mem_append_right _ (List.mem_cons_of_mem _ member)
  · have whole : ∀ other ∈ fs.places xs, decide (¬ (d.view fs).IsFree other) = true :=
      fun other member => decide_eq_true (full other member)
    have nothing : behind.takeWhile (fun place => (grown.view fs).entryAt place 0 ≠ 0) = [] := by
      cases behind with
      | nil => rfl
      | cons next rest =>
          rw [List.takeWhile_cons, if_neg]
          rw [decide_eq_true_iff, not_not]
          exact zero next (List.mem_cons_self ..)
    rw [nothing, FatView.around, List.takeWhile_eq_self_iff.mpr whole,
      List.dropWhile_eq_nil_iff.mpr whole]
    rfl

theorem around_places : w.around fs xs ⊆ fs.places xs := by
  intro other member
  rcases List.mem_append.mp member with early | late
  · exact (List.takeWhile_sublist _).mem early
  · exact (List.dropWhile_sublist _).mem ((List.drop_sublist _ _).mem
      ((List.takeWhile_sublist _).mem late))

/-- What is read before the entry is made is what is around the free place, or ends at it. -/
theorem lengthened_listed (sound : fs.Sound) (lengthened : Lengthened fs d grown xs ys)
    (slot : (grown.view fs).Slot fs (xs ++ ys) front place behind) :
    (d.view fs).listed fs xs = front ∨ ((d.view fs).entryAt place 0 = 0xE5 ∧
      (d.view fs).listed fs xs =
        front ++ place :: behind.takeWhile fun place => (grown.view fs).entryAt place 0 ≠ 0) := by
  rcases lengthened_cases sound lengthened slot with ⟨rfl, own⟩ | ⟨rfl, full, _, _⟩
  · rw [slot_listed own]
    by_cases ended : (d.view fs).entryAt place 0 = 0
    · rw [if_pos ended]
      exact .inl rfl
    · rw [if_neg ended]
      refine .inr ⟨own.free.resolve_left ended, ?_⟩
      congr 2
      apply takeWhile_congr
      intro other member
      rw [lengthened_entry lengthened]
      rw [own.split]
      exact List.mem_append_right _ (List.mem_cons_of_mem _ member)
  · left
    rw [FatView.listed, List.takeWhile_eq_self_iff]
    intro other member
    exact decide_eq_true fun ended => full other member (.inl ended)

end Listing

section Made

variable {name83 : List UInt8} {attr : UInt8}

theorem slot_places (slot : w.Slot fs xs front place behind) (nodup : (fs.places xs).Nodup) :
    place ∉ front ++ behind ∧ ∀ other ∈ front ++ behind, other ∈ fs.places xs := by
  rw [slot.split, List.nodup_middle] at nodup
  refine ⟨(List.nodup_cons.mp nodup).1, fun other member => ?_⟩
  rw [slot.split]
  rcases List.mem_append.mp member with early | late
  · exact List.mem_append_left _ early
  · exact List.mem_append_right _ (List.mem_cons_of_mem _ late)

theorem made_kept (made : Made fs grown after xs place name83 attr)
    (slot : (grown.view fs).Slot fs xs front place behind) (nodup : (fs.places xs).Nodup)
    {other : Nat × Nat} (member : other ∈ front ++ behind) :
    ∀ k < 32, (after.view fs).entryAt other k = (grown.view fs).entryAt other k := by
  obtain ⟨outside, inside⟩ := slot_places slot nodup
  apply made.kept other (inside other member)
  rintro rfl
  exact outside member

/-- The places that are read after the entry is made. -/
theorem made_listed (made : Made fs grown after xs place name83 attr)
    (slot : (grown.view fs).Slot fs xs front place behind) (nodup : (fs.places xs).Nodup)
    (first : (name83 ++ [attr]).getD 0 0 ≠ 0) :
    (after.view fs).listed fs xs =
      front ++ place :: behind.takeWhile fun place => (grown.view fs).entryAt place 0 ≠ 0 := by
  have listed : ∀ other ∈ front, decide ((after.view fs).entryAt other 0 ≠ 0) = true := by
    intro other member
    rw [made_kept made slot nodup (List.mem_append_left _ member) 0 (by decide)]
    exact decide_eq_true fun ended => slot.passed other member (.inl ended)
  have goes : decide ((after.view fs).entryAt place 0 ≠ 0) = true := by
    rw [made.name 0 (by decide)]
    exact decide_eq_true first
  rw [FatView.listed, slot.split, List.takeWhile_append_of_pos listed, List.takeWhile_cons,
    if_pos goes]
  congr 2
  apply takeWhile_congr
  intro other member
  rw [made_kept made slot nodup (List.mem_append_right _ member) 0 (by decide)]

theorem made_findIn (made : Made fs grown after xs place name83 attr)
    (slot : (grown.view fs).Slot fs xs front place behind) (nodup : (fs.places xs).Nodup)
    (first : (name83 ++ [attr]).getD 0 0 ≠ 0) (nameOnly : NameOnly hit) :
    (after.view fs).findIn fs hit xs =
      (front.find? fun place => hit ((grown.view fs).entryAt place)).or
        (if hit (entryOf (name83 ++ [attr])) = true then some place
          else (behind.takeWhile fun place => (grown.view fs).entryAt place 0 ≠ 0).find?
            fun place => hit ((grown.view fs).entryAt place)) := by
  have same : ∀ other ∈ front ++ behind,
      hit ((after.view fs).entryAt other) = hit ((grown.view fs).entryAt other) := by
    intro other member
    exact nameOnly _ _ fun k small =>
      made_kept made slot nodup member k (Nat.lt_trans small (by decide))
  have own : hit ((after.view fs).entryAt place) = hit (entryOf (name83 ++ [attr])) :=
    nameOnly _ _ fun k small => made.name k small
  rw [findIn_eq, made_listed made slot nodup first, List.find?_append, List.find?_cons, own]
  congr 1
  · apply List.find?_congr
    exact fun other member => same other (List.mem_append_left _ member)
  · cases hit (entryOf (name83 ++ [attr])) with
    | true => rfl
    | false =>
        apply List.find?_congr
        intro other member
        exact same other (List.mem_append_right _ ((List.takeWhile_sublist _).mem member))

/-- A name leads to an entry with the 8.3 name. -/
def answersTo (name83 other : List UInt8) : Bool :=
  name83.getD 0 0 ≠ 0xE5 && nameMatch other (entryOf name83)

/-- The entry is visible unless its name begins with the mark of a deleted entry. -/
theorem newEntry_finds (length : name83.length = 11)
    (isAttr : attr = fat32AttrDirectory ∨ attr = fat32AttrArchive) (other : List UInt8) :
    isVisible (entryOf (name83 ++ [attr])) = decide (name83.getD 0 0 ≠ 0xE5) ∧
      findsEntry other (entryOf (name83 ++ [attr])) =
        answersTo name83 other := by
  have bytes : ∀ k < 11, entryOf (name83 ++ [attr]) k = entryOf name83 k :=
    fun k small => List.getD_append _ _ _ _ (by omega)
  have last : entryOf (name83 ++ [attr]) 11 = attr := by
    rw [entryOf, List.getD_append_right _ _ _ _ (by omega), length]
    rfl
  have visible : isVisible (entryOf (name83 ++ [attr])) = decide (name83.getD 0 0 ≠ 0xE5) := by
    have plain : (decide (attr ≠ fat32AttrLfn) && decide (attr &&& fat32AttrVolumeId = 0)) =
        true := by
      rcases isAttr with rfl | rfl <;> decide
    rw [isVisible, direntAttr, last, bytes 0 (by decide), Bool.and_assoc, plain, Bool.and_true]
    rfl
  refine ⟨visible, ?_⟩
  rw [findsEntry_eq, visible, answersTo, nameMatch, nameMatch, format83Name_congr bytes]

end Made

section Consistency

variable {attr : UInt8} {start : Nat}

/-- A directory before and after an entry with the name was made in it. -/
structure EntryMade (fs : Fat32Fs) (d grown after : Disk) (xs ys : List Nat) (start : Nat)
    (name : List UInt8) (attr : UInt8) (front : List (Nat × Nat)) (place : Nat × Nat)
    (behind : List (Nat × Nat)) : Prop where
  sound : fs.Sound
  steady : d.Steady
  chain : d.HasChain fs xs
  nonempty : xs ≠ []
  isStart : xs.head?.getD 0 = start
  isAttr : attr = fat32AttrDirectory ∨ attr = fat32AttrArchive
  lengthened : Lengthened fs d grown xs ys
  slot : (grown.view fs).Slot fs (xs ++ ys) front place behind
  made : Made fs grown after (xs ++ ys) place (fat32NameTo83 name) attr

/-- What is read behind the entry. -/
abbrev Disk.restAt (grown : Disk) (fs : Fat32Fs) (behind : List (Nat × Nat)) : List (Nat × Nat) :=
  behind.takeWhile fun place => (grown.view fs).entryAt place 0 ≠ 0

theorem entry_first : (fat32NameTo83 name ++ [attr]).getD 0 0 ≠ 0 := by
  rw [List.getD_append _ _ _ _ (by rw [nameTo83_length]; decide)]
  exact nameTo83_first name

variable (entry : EntryMade fs d grown after xs ys start name attr front place behind)

include entry

theorem entry_nodup : (fs.places (xs ++ ys)).Nodup :=
  places_nodup entry.made.chain.chained.nodup

theorem entry_start : (xs ++ ys).head?.getD 0 = start := by
  obtain ⟨first, rest, rfl⟩ := List.exists_cons_of_ne_nil entry.nonempty
  exact entry.isStart

theorem entry_around : (d.view fs).around fs xs = front ++ grown.restAt fs behind :=
  lengthened_around entry.sound entry.lengthened entry.slot

theorem entry_same {other : Nat × Nat} (member : other ∈ front ++ grown.restAt fs behind) :
    (grown.view fs).entryAt other = (d.view fs).entryAt other := by
  rw [← entry_around entry] at member
  exact lengthened_entry entry.lengthened (around_places member)

theorem entry_outside : place ∉ front ++ grown.restAt fs behind := by
  intro member
  apply (slot_places entry.slot (entry_nodup entry)).1
  rcases List.mem_append.mp member with early | late
  · exact List.mem_append_left _ early
  · exact List.mem_append_right _ ((List.takeWhile_sublist _).mem late)

/-- Where a name leads after the entry is made. -/
theorem entry_lookup (other : List UInt8) : after.lookupPlace fs start other =
    (front.find? fun place => findsEntry other ((d.view fs).entryAt place)).or
      (if answersTo (fat32NameTo83 name) other = true then some place
        else (grown.restAt fs behind).find?
          fun place => findsEntry other ((d.view fs).entryAt place)) := by
  have finds := (newEntry_finds (nameTo83_length name) entry.isAttr other).2
  rw [lookupPlace_chain entry.sound entry.made.steady entry.made.chain (entry_start entry),
    made_findIn entry.made entry.slot (entry_nodup entry) entry_first
      (findsEntry_nameOnly other), finds]
  have early : front.find? (fun place => findsEntry other ((grown.view fs).entryAt place)) =
      front.find? (fun place => findsEntry other ((d.view fs).entryAt place)) :=
    List.find?_congr fun other member => by rw [entry_same entry (List.mem_append_left _ member)]
  have late : (grown.restAt fs behind).find?
        (fun place => findsEntry other ((grown.view fs).entryAt place)) =
      (grown.restAt fs behind).find?
        (fun place => findsEntry other ((d.view fs).entryAt place)) :=
    List.find?_congr fun other member => by rw [entry_same entry (List.mem_append_right _ member)]
  rw [early, late]

/-- Where names lead before: up to the free place, or also behind it. -/
theorem entry_before :
    (∀ other, d.lookupPlace fs start other =
      front.find? fun place => findsEntry other ((d.view fs).entryAt place)) ∨
    ∀ other, d.lookupPlace fs start other =
      (front ++ grown.restAt fs behind).find?
        fun place => findsEntry other ((d.view fs).entryAt place) := by
  have listing : ∀ other, d.lookupPlace fs start other = ((d.view fs).listed fs xs).find?
      fun place => findsEntry other ((d.view fs).entryAt place) := by
    intro other
    rw [lookupPlace_chain entry.sound entry.steady entry.chain entry.isStart, findIn_eq]
  rcases lengthened_listed entry.sound entry.lengthened entry.slot with
    ended | ⟨deleted, listed⟩
  · rw [ended] at listing
    exact .inl listing
  · refine .inr fun other => ?_
    have passed : findsEntry other ((d.view fs).entryAt place) = false := by
      rw [findsEntry_eq, isVisible, deleted]
      rfl
    rw [listing, listed, List.find?_append, List.find?_cons, passed, List.find?_append]

theorem entry_newPlace {found : Nat × Nat} : NewPlace fs d after xs found ↔ found = place := by
  rw [NewPlace]
  rcases lengthened_cases entry.sound entry.lengthened entry.slot with
    ⟨_, own⟩ | ⟨_, full, ⟨new, more, rfl, rfl⟩, _⟩
  · rw [slot_find own]
  · have none : (fs.places xs).find? (fun place => (d.view fs).IsFree place) = none := by
      rw [List.find?_eq_none]
      intro other member
      rw [decide_eq_true_iff]
      exact full other member
    rw [none]
    have last := List.getLast?_eq_some_getLast entry.nonempty
    have chain := entry.made.chain
    rw [← List.dropLast_append_getLast entry.nonempty, List.append_assoc,
      List.singleton_append] at chain
    have next := chain.next_eq
    rw [List.head?_cons, Option.getD_some] at next
    simp only [last, Option.mem_def, Option.some.injEq, exists_eq_left', next]
    constructor
    · rintro ⟨number, cluster⟩
      exact Prod.ext cluster.symm number
    · rintro rfl
      exact ⟨rfl, rfl⟩

theorem entry_names (alive : (fat32NameTo83 name).getD 0 0 ≠ 0xE5) :
    ((after.view fs).liveNames fs (xs ++ ys)).Perm
      (fat32NameTo83 name :: (d.view fs).namesAt ((d.view fs).around fs xs)) := by
  have shown := (newEntry_finds (nameTo83_length name) entry.isAttr []).1
  rw [decide_eq_true alive] at shown
  have same : ∀ other ∈ front ++ grown.restAt fs behind, ∀ k < 12,
      (after.view fs).entryAt other k = (d.view fs).entryAt other k := by
    intro other member k small
    have inside : other ∈ front ++ behind := by
      rcases List.mem_append.mp member with early | late
      · exact List.mem_append_left _ early
      · exact List.mem_append_right _ ((List.takeWhile_sublist _).mem late)
    rw [made_kept entry.made entry.slot (entry_nodup entry) inside k (by omega),
      entry_same entry member]
  have visible : isVisible ((after.view fs).entryAt place) = true := by
    rw [isVisible_nameOnly _ _ fun k small => entry.made.name k small]
    exact shown
  have named : bytesAt ((after.view fs).entryAt place) 0 11 = fat32NameTo83 name := by
    apply List.ext_getElem
    · rw [bytesAt_length, nameTo83_length]
    · intro k below inside
      rw [bytesAt_length] at below
      have byte := entry.made.name k (by omega)
      rw [List.getD_append _ _ _ _ inside, List.getD_eq_getElem _ _ inside] at byte
      rw [← byte]
      simp only [bytesAt, List.getElem_map, List.getElem_range, Nat.zero_add]
  rw [FatView.liveNames, made_listed entry.made entry.slot (entry_nodup entry) entry_first,
    entry_around entry, ← namesAt_congr same, namesAt_append, namesAt_append]
  have middle : (after.view fs).namesAt (place :: grown.restAt fs behind) =
      fat32NameTo83 name :: (after.view fs).namesAt (grown.restAt fs behind) := by
    rw [FatView.namesAt, List.filter_cons, if_pos visible, List.map_cons, named]
    rfl
  rw [middle]
  exact List.perm_middle

theorem entry_consistent (fits : NameFits (d.view fs) fs xs name) :
    NamesConsistent fs d after xs start name := by
  have answers : answersTo (fat32NameTo83 name) name = true := by
    rw [answersTo, fits.faithful, Bool.and_true, decide_eq_true_iff]
    exact fits.alive
  have fresh : d.lookupPlace fs start name = none := by
    rw [lookupPlace_chain entry.sound entry.steady entry.chain entry.isStart]
    exact fits.fresh
  refine ⟨⟨place, (entry_newPlace entry).mpr rfl, ?_⟩, fun other found before => ?_, ?_⟩
  · have fewer : front.find? (fun place => findsEntry name ((d.view fs).entryAt place)) = none := by
      rcases entry_before entry with ended | listed
      · rw [← ended, fresh]
      · rw [listed, List.find?_append] at fresh
        exact (Option.or_eq_none_iff.mp fresh).1
    rw [entry_lookup entry, fewer, Option.none_or, if_pos answers]
  · rw [entry_lookup entry]
    rcases entry_before entry with ended | listed
    · rw [← ended, before, Option.some_or]
    · rw [listed, List.find?_append] at before
      cases early : front.find? (fun place => findsEntry other ((d.view fs).entryAt place)) with
      | some first =>
          rw [early, Option.some_or] at before
          rw [Option.some_or, before]
      | none =>
          rw [early, Option.none_or] at before
          have apart : ¬ answersTo (fat32NameTo83 name) other = true := by
            -- the entry would answer to the new name as well
            intro answersOther
            have reached := List.find?_some before
            have member := List.mem_of_find?_eq_some before
            rw [listed, List.find?_eq_none] at fresh
            apply fresh found (List.mem_append_right _ member)
            rw [findsEntry_eq, Bool.and_eq_true] at reached ⊢
            rw [answersTo, Bool.and_eq_true] at answers answersOther
            exact ⟨reached.1, nameMatch_trans answers.2 answersOther.2 reached.2⟩
          rw [Option.none_or, if_neg apart, before]
  · intro zs chain isStart
    have same : zs = xs ++ ys :=
      chain.unique entry.made.chain (isStart.trans (entry_start entry).symm)
    rw [same, (entry_names entry fits.alive).nodup_iff]
    exact fits.distinct

theorem entry_fits (consistent : NamesConsistent fs d after xs start name) :
    NameFits (d.view fs) fs xs name := by
  obtain ⟨⟨found, isNew, leads⟩, kept, distinct⟩ := consistent
  obtain rfl := (entry_newPlace entry).mp isNew
  have outside := entry_outside entry
  have answers : answersTo (fat32NameTo83 name) name = true := by
    rw [entry_lookup entry] at leads
    by_contra silent
    rw [if_neg silent, ← List.find?_append] at leads
    exact outside (List.mem_of_find?_eq_some leads)
  have both := answers
  rw [answersTo, Bool.and_eq_true, decide_eq_true_iff] at both
  refine ⟨both.2, both.1, ?_, ?_⟩
  · rw [← lookupPlace_chain entry.sound entry.steady entry.chain entry.isStart]
    cases before : d.lookupPlace fs start name with
    | none => rfl
    | some found =>
        have still := kept name found before
        rw [leads] at still
        obtain rfl := Option.some.inj still
        exfalso
        rcases entry_before entry with ended | listed
        · rw [ended] at before
          exact outside (List.mem_append_left _ (List.mem_of_find?_eq_some before))
        · rw [listed] at before
          exact outside (List.mem_of_find?_eq_some before)
  · rw [← (entry_names entry both.1).nodup_iff]
    exact distinct _ entry.made.chain (entry_start entry)

end Consistency

section Created

variable {node : FatNode} {cache cache' : DirCache} {type fuel : Nat}

theorem create_entry (sound : fs.Sound) (steady : d.Steady) (chain : d.HasChain fs xs)
    (isStart : xs.head?.getD 0 = node.cluster)
    (result : fat32VfsCreate fs fuel d cache node name type = some (0, cache', after)) :
    ∃ grown ys attr front place behind,
      EntryMade fs d grown after xs ys node.cluster name attr front place behind := by
  obtain ⟨nonempty, grown, ys, front, place, behind, lengthened, slot, made⟩ :=
    vfsCreate_made sound steady chain isStart (nameTo83_length name) result
  refine ⟨grown, ys, _, front, place, behind, sound, steady, chain, nonempty, isStart, ?_,
    lengthened, slot, made⟩
  split
  · exact .inl rfl
  · exact .inr rfl

theorem create_names_iff (sound : fs.Sound) (steady : d.Steady) (chain : d.HasChain fs xs)
    (isStart : xs.head?.getD 0 = node.cluster)
    (result : fat32VfsCreate fs fuel d cache node name type = some (0, cache', after)) :
    NamesConsistent fs d after xs node.cluster name ↔ NameFits (d.view fs) fs xs name := by
  obtain ⟨_, _, _, _, _, _, entry⟩ := create_entry sound steady chain isStart result
  exact ⟨entry_fits entry, entry_consistent entry⟩

/-- `longfilename.txt`, which is stored as `LONGFILE.TXT`. -/
def longName : List UInt8 :=
  [0x6C, 0x6F, 0x6E, 0x67, 0x66, 0x69, 0x6C, 0x65, 0x6E, 0x61, 0x6D, 0x65, 0x2E, 0x74, 0x78, 0x74]

theorem emptyDisk_creates (name : List UInt8)
    (created : (fat32VfsCreate emptyVolume 2 emptyDisk emptyCache emptyRoot name 1).map (·.1) =
      some 0) :
    ∃ cache after, fat32VfsCreate emptyVolume 2 emptyDisk emptyCache emptyRoot name 1 =
      some (0, cache, after) := by
  obtain ⟨⟨code, cache, after⟩, result, rfl⟩ := Option.map_eq_some_iff.mp created
  exact ⟨cache, after, result⟩

theorem long_name_lost : ∃ cache after,
    fat32VfsCreate emptyVolume 2 emptyDisk emptyCache emptyRoot longName 1 =
      some (0, cache, after) ∧
    ¬ NamesConsistent emptyVolume emptyDisk after [2] 2 longName := by
  obtain ⟨cache, after, result⟩ := emptyDisk_creates longName (by decide +kernel)
  refine ⟨cache, after, result, fun consistent => ?_⟩
  obtain ⟨_, _, _, _, _, _, entry⟩ := create_entry emptyVolume_sound emptyDisk_reliable.steady
    emptyDisk_root rfl result
  have faithful := (entry_fits entry consistent).faithful
  revert faithful
  decide

theorem create_names_iff_short : ∃ cache after,
    fat32VfsCreate emptyVolume 2 emptyDisk emptyCache emptyRoot [0x61, 0x2E, 0x63] 1 =
      some (0, cache, after) ∧
    NamesConsistent emptyVolume emptyDisk after [2] 2 [0x61, 0x2E, 0x63] := by
  obtain ⟨cache, after, result⟩ := emptyDisk_creates [0x61, 0x2E, 0x63] (by decide +kernel)
  refine ⟨cache, after, result, ?_⟩
  refine (create_names_iff emptyVolume_sound emptyDisk_reliable.steady emptyDisk_root rfl
    result).mpr ⟨?_, ?_, ?_, ?_⟩ <;> decide

end Created

end ZurichOS
