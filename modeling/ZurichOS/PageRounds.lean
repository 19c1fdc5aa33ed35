import ZurichOS.ElfUndone
import ZurichOS.FrameBatch
import ZurichOS.PageBytes

/-!
The pages that a program load maps one after the other.  A page that is mapped again gets
another frame, and the one it had is lost: no page maps it and it is not free.
-/

namespace ZurichOS

open Words ByteBuffer Mm

def elfStep (m : Mm) (page : Nat) : Mm :=
  vmmMapPage { m with pmm := (pmmAllocFrame m.pmm).2 } page (pmmAllocFrame m.pmm).1
    (pagePresent ||| pageWrite ||| pageUser)

theorem elfMapPages_cons {m : Mm} (success : (pmmAllocFrame m.pmm).1 ≠ 0) (page : Nat)
    (rest : List Nat) : elfMapPages (page :: rest) m = elfMapPages rest (elfStep m page) :=
  if_neg success

namespace Mm

/-- `after` is `m` with a free frame given to a page, and one to its table if it had none. -/
structure Round (m after : Mm) (page : Nat) : Prop extends KeepsReserved 0 m after where
  isFree : m.pmm.bitmapTest (after.frameAt page) = false
  present : after.Present page
  taken : after.Harmless (after.frameAt page)
  others : ∀ other, pdIndex other ≠ recursivePdIndex → pageOf other ≠ pageOf page →
    after.entry other = m.entry other
  linked : ∀ index, after.HasTable index ↔ m.HasTable index ∨ index = pdIndex page
  grows : ∀ frame, m.pmm.bitmapTest frame = true → after.pmm.bitmapTest frame = true
  used : ∀ frame, after.pmm.bitmapTest frame = true →
    m.pmm.bitmapTest frame = true ∨ frame = after.frameAt page ∨ after.IsTable frame
  tables : ∀ frame, m.IsTable frame → after.IsTable frame
  newTables : ∀ frame, after.IsTable frame → m.IsTable frame ∨ m.pmm.bitmapTest frame = false
  phys : ∀ frame, m.Harmless frame → after.phys frame = m.phys frame

section Round

variable {m : Mm} {page : Nat}

theorem ReservedKept.noFrame (kept : ReservedKept 0 m) (failed : (pmmAllocFrame m.pmm).1 = 0) :
    NoFrame m.pmm :=
  Prod.ext failed (Pmm.allocFrame_dry failed kept.guarded.memory kept.accounted)

/-- A frame and, where it is missing, a table are found for the page, or the last frame goes to
a page without a table. -/
theorem ReservedKept.round (kept : ReservedKept 0 m) (success : (pmmAllocFrame m.pmm).1 ≠ 0)
    (user : page < 0xC0000000) :
    Round m (elfStep m page) page ∨
      ¬ m.HasTable (pdIndex page) ∧ NoFrame (elfStep m page).pmm := by
  have regular := user_ne_recursive user
  have takes := kept.accounted.takes success
  have taken := kept.allocFrame
  have guarded := taken.kept.guarded
  have sound := guarded.toTablesSound
  generalize flags : pagePresent ||| pageWrite ||| pageUser = flag
  have stepEq : elfStep m page = vmmMapPage { m with pmm := (pmmAllocFrame m.pmm).2 } page
      (pmmAllocFrame m.pmm).1 flag := by rw [elfStep, flags]
  have pmm := vmmMapPage_pmm sound page (pmmAllocFrame m.pmm).1 flag
  by_cases stuck : ¬ m.HasTable (pdIndex page) ∧ (pmmAllocFrame (pmmAllocFrame m.pmm).2).1 = 0
  · have dry := taken.kept.noFrame stuck.2
    refine .inr ⟨stuck.1, ?_⟩
    rw [stepEq, vmmMapPage_failed sound _ _ stuck.1 stuck.2]
    show NoFrame (pmmAllocFrame (pmmAllocFrame m.pmm).2).2
    rw [show pmmAllocFrame (pmmAllocFrame m.pmm).2 = (0, (pmmAllocFrame m.pmm).2) from dry]
    exact dry
  · have second : ¬ m.HasTable (pdIndex page) → (pmmAllocFrame (pmmAllocFrame m.pmm).2).1 ≠ 0 :=
      fun absent failed => stuck ⟨absent, failed⟩
    have set := vmmMapPage_setsEntry sound regular (pmmAllocFrame m.pmm).1 flag fun absent =>
      ⟨second absent, (guarded.allocFrame_success (second absent)).2.2.1⟩
    have given := kept.give success regular flag
    rw [← stepEq] at pmm set given
    have frame : (elfStep m page).frameAt page = (pmmAllocFrame m.pmm).1 / 4096 := by
      rw [frameAt, set.entry_eq regular, if_pos rfl, frameOf_tableEntry]
    have isTable := set.isTable
    refine .inl ⟨given.toKeepsReserved, ?_, ?_, ?_, given.others, set.hasTable_iff, ?_, ?_, ?_, ?_,
      ?_⟩
    · rw [frame]
      exact takes.isFree
    · rw [Present, set.entry_eq regular, if_pos rfl]
      exact tableEntry_present _ _
    · rw [frame]
      exact given.taken
    · intro other used
      rw [stepEq]
      refine vmmMapPage_keeps ?_ _ _ _
      exact allocFrame_keeps used
    · intro other used
      rw [frame, isTable]
      by_contra none
      obtain ⟨idle, notTaken, notTable⟩ := by simpa only [not_or] using none
      have afterFirst := (takes.free other).mpr ⟨Bool.eq_false_iff.mpr idle, notTaken⟩
      rw [pmm] at used
      split at used
      · rw [afterFirst] at used
        cases used
      · rename_i absent
        have again := takes.accounted.takes (second absent)
        have idleStill := (again.free other).mpr
          ⟨afterFirst, fun isTaken => notTable.2 ⟨absent, isTaken⟩⟩
        rw [idleStill] at used
        cases used
    · exact fun other table => (isTable other).mpr (.inl table)
    · intro other table
      refine ((isTable other).mp table).imp_right ?_
      rintro ⟨absent, rfl⟩
      exact ((takes.free _).mp (takes.accounted.takes (second absent)).isFree).1
    · intro other harmless
      rw [stepEq]
      exact guarded.mapPage_phys (taken.harmless other harmless) page _ flag

end Round

/-- From `m` to `now` the pages `done` were given fresh frames. -/
structure Loading (m now : Mm) (done : List Nat) : Prop where
  kept : ReservedKept 0 now
  users : ∀ virt < 0xC0000000, now.Maps virt now.Harmless
  grows : ∀ frame, m.pmm.bitmapTest frame = true → now.pmm.bitmapTest frame = true
  pages : ∀ page ∈ done, page % 4096 = 0 ∧ page < 0xC0000000
  sole : ∀ page ∈ done, now.SolePage page ∧ m.pmm.bitmapTest (now.frameAt page) = false
  others : ∀ other < 0xC0000000, (∀ page ∈ done, pageOf other ≠ pageOf page) →
    now.entry other = m.entry other

/-- Every frame that was free and is in use is a page table or mapped by a user page. -/
def NoneLost (m now : Mm) : Prop :=
  ∀ frame, m.pmm.bitmapTest frame = false → now.pmm.bitmapTest frame = true →
    now.IsTable frame ∨ ∃ virt < 0xC0000000, now.Present virt ∧ now.frameAt virt = frame

def Lost (m now : Mm) : Prop :=
  ∃ frame, m.pmm.bitmapTest frame = false ∧ now.pmm.bitmapTest frame = true ∧
    ¬ now.IsTable frame ∧ ∀ virt < 0xC0000000, now.Present virt → now.frameAt virt ≠ frame

section Loading

variable {m now after : Mm} {done : List Nat} {page : Nat}

theorem Lost.not_noneLost (lost : Lost m now) : ¬ NoneLost m now := by
  obtain ⟨frame, wasFree, used, noTable, unmapped⟩ := lost
  intro none
  rcases none frame wasFree used with table | ⟨virt, user, present, same⟩
  · exact noTable table
  · exact unmapped virt user present same

theorem frameAt_congr (now : Mm) {virt other : Nat} (same : pageOf virt = pageOf other) :
    now.frameAt virt = now.frameAt other := by
  rw [frameAt, frameAt, entry_congr now same]

theorem SolePage.congr {virt other : Nat} (sole : now.SolePage virt)
    (same : pageOf other = pageOf virt) : now.SolePage other := by
  refine ⟨?_, ?_, fun third inside present shared => ?_⟩
  · rw [Present, entry_congr now same]
    exact sole.present
  · rw [frameAt_congr now same]
    exact sole.fresh
  · rw [frameAt_congr now same] at shared
    exact (sole.own third inside present shared).trans same.symm

theorem Loading.start (kept : ReservedKept 0 m)
    (users : ∀ virt < 0xC0000000, m.Maps virt m.Harmless) : Loading m m [] :=
  ⟨kept, users, fun _ used => used, by simp, by simp, fun _ _ _ => rfl⟩

theorem NoneLost.start (m : Mm) : NoneLost m m := by
  intro frame free used
  rw [free] at used
  cases used

theorem Round.entry_other (round : Round now after page) {other : Nat} (user : other < 0xC0000000)
    (apart : pageOf other ≠ pageOf page) : after.entry other = now.entry other :=
  round.others other (user_ne_recursive user) apart

theorem Round.frame_other (round : Round now after page) {other : Nat} (user : other < 0xC0000000)
    (apart : pageOf other ≠ pageOf page) : after.frameAt other = now.frameAt other := by
  rw [frameAt, round.entry_other user apart]
  rfl

theorem Round.present_other (round : Round now after page) {other : Nat}
    (user : other < 0xC0000000) (apart : pageOf other ≠ pageOf page) :
    after.Present other ↔ now.Present other := by
  rw [Present, round.entry_other user apart]
  rfl

theorem Loading.fresh_own (loading : Loading m now done) (round : Round now after page)
    {other : Nat} (user : other < 0xC0000000) (present : after.Present other)
    (same : after.frameAt other = after.frameAt page) : pageOf other = pageOf page := by
  by_contra apart
  rw [round.present_other user apart] at present
  rw [round.frame_other user apart] at same
  have used := (loading.users other user present).2
  rw [show frameOf (now.entry other) = after.frameAt page from same, round.isFree] at used
  cases used

theorem Loading.fresh_sole (loading : Loading m now done) (round : Round now after page) :
    after.SolePage page ∧ m.pmm.bitmapTest (after.frameAt page) = false := by
  refine ⟨⟨round.present, round.taken.1, fun other inside present same =>
    loading.fresh_own round inside present same⟩, Bool.eq_false_iff.mpr fun used => ?_⟩
  exact Bool.eq_false_iff.mp round.isFree (loading.grows _ used)

theorem Loading.sole_other (loading : Loading m now done) (round : Round now after page)
    {other : Nat} (user : other < 0xC0000000) (sole : now.SolePage other)
    (apart : pageOf other ≠ pageOf page) : after.SolePage other := by
  have owned := loading.users other user sole.present
  refine ⟨(round.present_other user apart).mpr sole.present, ?_, fun third inside present same => ?_⟩
  · rw [round.frame_other user apart]
    exact (round.harmless _ owned).1
  · rw [round.frame_other user apart] at same
    by_cases own : pageOf third = pageOf page
    · have used := owned.2
      rw [frameAt_congr after own] at same
      rw [show frameOf (now.entry other) = after.frameAt page from same.symm, round.isFree] at used
      cases used
    · rw [round.present_other inside own] at present
      rw [round.frame_other inside own] at same
      exact sole.own third inside present same

theorem Loading.round (loading : Loading m now done) (round : Round now after page)
    (aligned : page % 4096 = 0) (user : page < 0xC0000000) :
    Loading m after (done ++ [page]) := by
  refine ⟨round.kept, fun virt inside => ?_, fun frame used => round.grows frame
    (loading.grows frame used), ?_, ?_, ?_⟩
  · by_cases own : pageOf virt = pageOf page
    · intro _
      rw [entry_congr after own]
      exact round.taken
    · exact (loading.users virt inside).of_entry round.harmless
        (.inl (round.entry_other inside own))
  · intro other member
    rcases List.mem_append.mp member with earlier | last
    · exact loading.pages other earlier
    · cases List.mem_singleton.mp last
      exact ⟨aligned, user⟩
  · obtain ⟨ownSole, ownFree⟩ := loading.fresh_sole round
    intro other member
    rcases List.mem_append.mp member with earlier | last
    · by_cases own : pageOf other = pageOf page
      · refine ⟨ownSole.congr own, ?_⟩
        rwa [frameAt_congr after own]
      · obtain ⟨sole, wasFree⟩ := loading.sole other earlier
        have inside := (loading.pages other earlier).2
        refine ⟨loading.sole_other round inside sole own, ?_⟩
        rwa [round.frame_other inside own]
    · cases List.mem_singleton.mp last
      exact ⟨ownSole, ownFree⟩
  · intro other inside apart
    rw [round.entry_other inside (apart page (by simp))]
    exact loading.others other inside fun earlier member => apart earlier (by simp [member])

theorem NoneLost.round (none : NoneLost m now) (loading : Loading m now done)
    (users : ∀ virt < 0xC0000000, m.Maps virt m.Harmless) (round : Round now after page)
    (user : page < 0xC0000000) (new : ∀ other ∈ done, pageOf other ≠ pageOf page) :
    NoneLost m after := by
  intro frame wasFree used
  rcases round.used frame used with before | rfl | table
  · rcases none frame wasFree before with table | ⟨virt, inside, present, same⟩
    · exact .inl (round.tables frame table)
    · by_cases own : pageOf virt = pageOf page
      · -- What the page mapped before the load was in use then.
        have old := loading.others virt inside fun other member samePage =>
          new other member (samePage.symm.trans own)
        rw [Present, old] at present
        have inUse := (users virt inside present).2
        rw [← old, show frameOf (now.entry virt) = frame from same, wasFree] at inUse
        cases inUse
      · refine .inr ⟨virt, inside, (round.present_other inside own).mpr present, ?_⟩
        rw [round.frame_other inside own, same]
  · exact .inr ⟨page, user, round.present, rfl⟩
  · exact .inl table

theorem Lost.round (lost : Lost m now) (round : Round now after page) : Lost m after := by
  obtain ⟨frame, wasFree, used, noTable, unmapped⟩ := lost
  refine ⟨frame, wasFree, round.grows frame used, fun table => ?_, fun virt inside present same => ?_⟩
  · rcases round.newTables frame table with before | free
    · exact noTable before
    · rw [free] at used
      cases used
  · by_cases own : pageOf virt = pageOf page
    · rw [frameAt_congr after own] at same
      have isFree := round.isFree
      rw [same, used] at isFree
      cases isFree
    · rw [round.present_other inside own] at present
      rw [round.frame_other inside own] at same
      exact unmapped virt inside present same

/-- A page that is given a frame a second time loses the first. -/
theorem Loading.again (loading : Loading m now done) (round : Round now after page)
    (member : page ∈ done) : Lost m after := by
  obtain ⟨sole, wasFree⟩ := loading.sole page member
  obtain ⟨fresh, used⟩ := loading.users page (loading.pages page member).2 sole.present
  have kept := round.harmless _ ⟨fresh, used⟩
  refine ⟨now.frameAt page, wasFree, kept.2, (freshTable_iff after _).mp kept.1,
    fun virt inside present same => ?_⟩
  by_cases own : pageOf virt = pageOf page
  · rw [frameAt_congr after own] at same
    have isFree := round.isFree
    rw [same] at isFree
    rw [show frameOf (now.entry page) = now.frameAt page from rfl, isFree] at used
    cases used
  · rw [round.present_other inside own] at present
    rw [round.frame_other inside own] at same
    exact own (sole.own virt inside present same)

theorem NoneLost.same (none : NoneLost m now) (same : SameFrames now after) : NoneLost m after := by
  intro frame wasFree used
  rw [same.pmm] at used
  refine (none frame wasFree used).imp (same.isTable frame).mpr ?_
  rintro ⟨virt, inside, present, maps⟩
  refine ⟨virt, inside, ?_, ?_⟩
  · rwa [Present, same.entry]
  · rw [frameAt, same.entry]
    exact maps

theorem Lost.same (lost : Lost m now) (same : SameFrames now after) : Lost m after := by
  obtain ⟨frame, wasFree, used, noTable, unmapped⟩ := lost
  refine ⟨frame, wasFree, ?_, fun table => noTable ((same.isTable frame).mp table),
    fun virt inside present maps => ?_⟩
  · rwa [same.pmm]
  · rw [Present, same.entry] at present
    rw [frameAt, same.entry] at maps
    exact unmapped virt inside present maps

theorem Loading.same (loading : Loading m now done) (same : SameFrames now after) :
    Loading m after done := by
  have keeps := same.keeps loading.kept
  refine ⟨keeps.kept, fun virt user => ?_, fun frame used => ?_, loading.pages,
    fun page member => ?_, fun other user apart => ?_⟩
  · exact (loading.users virt user).of_entry keeps.harmless (.inl (same.entry virt))
  · rw [same.pmm]
    exact loading.grows frame used
  · obtain ⟨sole, wasFree⟩ := loading.sole page member
    refine ⟨same.sole sole, ?_⟩
    rwa [frameAt, same.entry]
  · rw [same.entry]
    exact loading.others other user apart

/-- The pages `done` were given frames, and a frame was lost exactly if one came twice. -/
structure Loaded (m now : Mm) (done : List Nat) : Prop extends Loading m now done where
  none : done.Nodup → NoneLost m now
  lost : ¬ done.Nodup → Lost m now

theorem Loaded.same (loaded : Loaded m now done) (same : SameFrames now after) :
    Loaded m after done :=
  ⟨loaded.toLoading.same same, fun once => (loaded.none once).same same,
    fun twice => (loaded.lost twice).same same⟩

theorem Loaded.round (loaded : Loaded m now done)
    (users : ∀ virt < 0xC0000000, m.Maps virt m.Harmless) (round : Round now after page)
    (aligned : page % 4096 = 0) (user : page < 0xC0000000) : Loaded m after (done ++ [page]) := by
  refine ⟨loaded.toLoading.round round aligned user, fun once => ?_, fun twice => ?_⟩
  · rw [List.nodup_append_comm, List.singleton_append, List.nodup_cons] at once
    refine (loaded.none once.2).round loaded.toLoading users round user fun other member same => ?_
    obtain ⟨otherAligned, otherUser⟩ := loaded.pages other member
    exact once.1 (eq_of_pageOf (by omega) (by omega) otherAligned aligned same ▸ member)
  · rw [List.nodup_append_comm, List.singleton_append, List.nodup_cons] at twice
    by_cases member : page ∈ done
    · exact loaded.again round member
    · exact (loaded.lost fun once => twice ⟨member, once⟩).round round

/-- User pages other than the ones named stay mapped and keep their bytes. -/
def KeepsBytes (m after : Mm) (pages : List Nat) : Prop :=
  ∀ virt < 0xC0000000, (∀ page ∈ pages, pageOf virt ≠ pageOf page) → m.Present virt →
    after.Present virt ∧ after.byteAt virt = m.byteAt virt

theorem KeepsBytes.refl (m : Mm) : KeepsBytes m m [] := fun _ _ _ present => ⟨present, rfl⟩

theorem KeepsBytes.trans {front rest : List Nat} (first : KeepsBytes m now front)
    (second : KeepsBytes now after rest) : KeepsBytes m after (front ++ rest) := by
  intro virt user apart present
  obtain ⟨kept, same⟩ := first virt user (fun page member => apart page (by simp [member])) present
  obtain ⟨still, again⟩ := second virt user (fun page member => apart page (by simp [member])) kept
  exact ⟨still, again.trans same⟩

theorem KeepsBytes.mono {front rest : List Nat} (keeps : KeepsBytes m after front)
    (more : front ⊆ rest) : KeepsBytes m after rest := by
  intro virt user apart present
  exact keeps virt user (fun page member => apart page (more member)) present

theorem Loading.keepsBytes (loading : Loading m now done) (round : Round now after page) :
    KeepsBytes now after [page] := by
  intro virt user apart present
  have other := apart page (by simp)
  exact ⟨(round.present_other user other).mpr present,
    byteAt_congr present (round.entry_other user other)
      (round.phys _ (loading.users virt user present))⟩

/-- The loop succeeds without having mapped its last page if that page takes the last frame and
no page before it has brought the table it needs. -/
theorem Loaded.mapPages {pages : List Nat} (loaded : Loaded m now done)
    (users : ∀ virt < 0xC0000000, m.Maps virt m.Harmless)
    (inside : ∀ page ∈ pages, page % 4096 = 0 ∧ page < 0xC0000000)
    (success : (elfMapPages pages now).1 = true) :
    (Loaded m (elfMapPages pages now).2 (done ++ pages) ∧
      KeepsBytes now (elfMapPages pages now).2 pages) ∨
    (NoFrame (elfMapPages pages now).2.pmm ∧ ∃ front last, pages = front ++ [last] ∧
      ∀ page ∈ front, pdIndex page ≠ pdIndex last) := by
  suffices strong : (Loaded m (elfMapPages pages now).2 (done ++ pages) ∧
      KeepsBytes now (elfMapPages pages now).2 pages) ∨
    (NoFrame (elfMapPages pages now).2.pmm ∧ ∃ front last, pages = front ++ [last] ∧
      ¬ now.HasTable (pdIndex last) ∧ ∀ page ∈ front, pdIndex page ≠ pdIndex last) by
    refine strong.imp_right ?_
    rintro ⟨dry, front, last, shape, _, apart⟩
    exact ⟨dry, front, last, shape, apart⟩
  induction pages generalizing now done with
  | nil =>
      rw [List.append_nil]
      exact .inl ⟨loaded, .refl now⟩
  | cons page rest ih =>
      have found : (pmmAllocFrame now.pmm).1 ≠ 0 := by
        intro failed
        simp [elfMapPages, failed] at success
      obtain ⟨aligned, user⟩ := inside page (by simp)
      rw [elfMapPages_cons found] at success ⊢
      rcases loaded.kept.round found user with round | ⟨absent, dry⟩
      · have next := loaded.round users round aligned user
        rcases ih next (fun other member => inside other (by simp [member])) success with
          ⟨done, bytes⟩ | ⟨dry, front, last, rfl, absent, apart⟩
        · rw [List.append_cons]
          exact .inl ⟨done, (loaded.keepsBytes round).trans bytes⟩
        · rw [round.linked] at absent
          refine .inr ⟨dry, page :: front, last, rfl, fun table => absent (.inl table), ?_⟩
          intro other member
          rcases List.mem_cons.mp member with rfl | later
          · exact fun same => absent (.inr same.symm)
          · exact apart other later
      · cases rest with
        | nil => exact .inr ⟨dry, [], page, rfl, absent, by simp⟩
        | cons other rest =>
            rw [elfMapPages_dry dry (List.cons_ne_nil _ _)] at success
            cases success

end Loading

end Mm

end ZurichOS
