import Mathlib.Data.List.Nodup
import Hermione.Membership

/-!
# Courses keep a member

A removal counts the rows that it has locked, and what is locked stays there until it
commits.  It deletes one key of at least two, so a course that is taught stays taught,
whatever else is granted or removed meanwhile.
-/

namespace Hermione

open EventRuns RowLocks

variable {Admin Course : Type}

namespace Memberships

/-! ### What holds of every state -/

/-- The places are rows of the course that the call has locked. -/
def Locks (table : Table (Admin × Course)) (call : Nat) (course : Course)
    (locked : List Nat) : Prop :=
  locked.Nodup ∧ ∀ place ∈ locked, ∃ row, table[place]? = some row ∧
    row.holder = some call ∧ row.gone = false ∧ row.key.2 = course

def CallSound (table : Table (Admin × Course)) (call : Nat) :
    MembershipCall Admin Course → Prop
  | .locking _ course left locked =>
      (∀ place ∈ left, ∃ row, table[place]? = some row ∧ row.key.2 = course) ∧
        Locks table call course locked
  | .deleting _ course locked | .committing _ course locked =>
      Locks table call course locked ∧ 2 ≤ locked.length
  | _ => True

/-- A row that is being deleted is its call's own. -/
def Marks (world : Memberships Admin Course) : Prop :=
  ∀ (place : Nat) (row : Row (Admin × Course)), world.table[place]? = some row →
    row.marked = true → ∃ call admin course locked, row.holder = some call ∧
      world.calls call = .committing admin course locked ∧ row.key = (admin, course)

structure Sound (world : Memberships Admin Course) : Prop where
  unique : Unique world.table
  marks : world.Marks
  calls : ∀ call, CallSound world.table call (world.calls call)

theorem Locks.undisturbed {table later : Table (Admin × Course)} {call other : Nat}
    {course : Course} {locked : List Nat} (locks : Locks table call course locked)
    (apart : Undisturbed other table later) (different : call ≠ other) :
    Locks later call course locked := by
  refine ⟨locks.1, fun place member => ?_⟩
  obtain ⟨row, found, holder, there, same⟩ := locks.2 place member
  exact ⟨row, apart.held place row call found holder different, holder, there, same⟩

theorem CallSound.undisturbed {table later : Table (Admin × Course)} {call other : Nat}
    {phase : MembershipCall Admin Course} (sound : CallSound table call phase)
    (apart : Undisturbed other table later) (different : call ≠ other) :
    CallSound later call phase := by
  cases phase with
  | locking admin course left locked =>
      refine ⟨fun place member => ?_, sound.2.undisturbed apart different⟩
      obtain ⟨row, found, same⟩ := sound.1 place member
      obtain ⟨row', found', key⟩ := apart.keys place row found
      exact ⟨row', found', key ▸ same⟩
  | deleting admin course locked | committing admin course locked =>
      exact ⟨sound.1.undisturbed apart different, sound.2⟩
  | idle | granting _ _ | granted | refusing _ | answered _ | failed => trivial

/-- After a call's own step the others are as they were. -/
theorem Sound.moved {world : Memberships Admin Course} (sound : world.Sound) {call : Nat}
    {later : Table (Admin × Course)} {phase : MembershipCall Admin Course}
    (apart : Undisturbed call world.table later) (unique : Unique later)
    (marks : ∀ (place : Nat) (row : Row (Admin × Course)), later[place]? = some row →
      row.marked = true → (world.table[place]? = some row ∧ row.holder ≠ some call) ∨
        ∃ admin course locked, row.holder = some call ∧
          phase = .committing admin course locked ∧ row.key = (admin, course))
    (own : CallSound later call phase) :
    ({ world with table := later }.put call phase).Sound where
  unique := unique
  marks := by
    intro place row found marked
    obtain ⟨was, other⟩ | ⟨admin, course, locked, holder, rfl, key⟩ := marks place row found marked
    · obtain ⟨owner, admin, course, locked, holder, doing, key⟩ := sound.marks place row was marked
      have different : owner ≠ call := fun same => other (same ▸ holder)
      exact ⟨owner, admin, course, locked, holder,
        (Function.update_of_ne different _ _).trans doing, key⟩
    · exact ⟨call, admin, course, locked, holder, Function.update_self _ _ _, key⟩
  calls := by
    intro other
    by_cases same : other = call
    · subst same
      change CallSound later other (Function.update world.calls other phase other)
      rw [Function.update_self]
      exact own
    · change CallSound later other (Function.update world.calls call phase other)
      rw [Function.update_of_ne same]
      exact (sound.calls other).undisturbed apart same

/-- The rows that are being deleted are others', unless the call is committing. -/
theorem Sound.not_mine {world : Memberships Admin Course} (sound : world.Sound) {call : Nat}
    (before : ∀ admin course locked, world.calls call ≠ .committing admin course locked)
    {place : Nat} {row : Row (Admin × Course)} (found : world.table[place]? = some row)
    (marked : row.marked = true) : row.holder ≠ some call := by
  obtain ⟨owner, admin, course, locked, holder, doing, _⟩ := sound.marks place row found marked
  rw [holder]
  rintro same
  obtain rfl := Option.some.inj same
  exact before admin course locked doing

/-- A call that leaves the table as it is, and was not committing. -/
theorem Sound.put {world : Memberships Admin Course} (sound : world.Sound) {call : Nat}
    {phase : MembershipCall Admin Course}
    (before : ∀ admin course locked, world.calls call ≠ .committing admin course locked)
    (own : CallSound world.table call phase) : (world.put call phase).Sound :=
  sound.moved .refl sound.unique
    (fun _ _ found marked => .inl ⟨found, sound.not_mine before found marked⟩) own

theorem Locks.lock {table : Table (Admin × Course)} {call place : Nat} {course : Course}
    {locked : List Nat} {row : Row (Admin × Course)} (locks : Locks table call course locked)
    (found : table[place]? = some row) (there : row.gone = false) (free : row.holder = none)
    (taught : row.key.2 = course) :
    Locks (table.lock call place) call course (locked ++ [place]) := by
  have fresh : place ∉ locked := by
    intro member
    obtain ⟨row', found', holder, _⟩ := locks.2 place member
    cases found.symm.trans found'
    rw [free] at holder
    cases holder
  constructor
  · rw [List.nodup_append]
    refine ⟨locks.1, by simp, ?_⟩
    rintro other member _ here rfl
    exact fresh (List.mem_singleton.mp here ▸ member)
  · intro other member
    rw [Table.lock, List.getElem?_modify]
    rcases List.mem_append.mp member with before | here
    · obtain ⟨row', found', holder, same⟩ := locks.2 other before
      have elsewhere : place ≠ other := fun same => fresh (same ▸ before)
      exact ⟨row', by simp [found', elsewhere], holder, same⟩
    · obtain rfl := List.mem_singleton.mp here
      exact ⟨{ row with holder := some call }, by simp [found], rfl, there, taught⟩

theorem sound_start {members : List (Admin × Course)} (distinct : members.Nodup) :
    (start members).Sound where
  unique := by
    intro place other row row' found found' _ _ same
    change (members.map Row.fresh)[place]? = some row at found
    change (members.map Row.fresh)[other]? = some row' at found'
    rw [List.getElem?_map, Option.map_eq_some_iff] at found found'
    obtain ⟨key, there, rfl⟩ := found
    obtain ⟨key', there', rfl⟩ := found'
    obtain rfl : key = key' := same
    have within := (List.getElem?_eq_some_iff.mp there).1
    exact (List.getElem?_inj within distinct).mp (there.trans there'.symm)
  marks := by
    intro place row found marked
    obtain ⟨key, _, rfl⟩ := List.mem_map.mp (List.mem_of_getElem? found)
    cases marked
  calls _ := trivial

theorem Sound.locked {world : Memberships Admin Course} (sound : world.Sound)
    {call place : Nat} {admin : Admin} {course : Course} {left locked : List Nat}
    {row : Row (Admin × Course)} (before : world.calls call = .locking admin course left locked)
    (wanted : place ∈ left) (found : world.table[place]? = some row)
    (there : row.gone = false) (free : row.holder = none) :
    ({ world with table := world.table.lock call place }.put call
      (.locking admin course (left.erase place) (locked ++ [place]))).Sound := by
  have own := sound.calls call
  rw [before] at own
  apply sound.moved (undisturbed_lock found free) (sound.unique.traced traced_lock)
  · intro other row' found' marked
    rw [Table.lock, List.getElem?_modify] at found'
    obtain ⟨was, there', rfl⟩ := Option.map_eq_some_iff.mp found'
    left
    by_cases here : place = other
    · subst here
      obtain rfl := Option.some.inj (found.symm.trans there')
      obtain ⟨_, _, _, _, holder, _⟩ := sound.marks place row found (by simpa using marked)
      rw [free] at holder
      cases holder
    · simp only [here, if_false] at marked ⊢
      exact ⟨there', sound.not_mine (by simp [before]) there' marked⟩
  · obtain ⟨row', found', taught⟩ := own.1 place wanted
    cases found.symm.trans found'
    refine ⟨?_, own.2.lock found there free taught⟩
    intro other member
    obtain ⟨row', found', same⟩ := own.1 other (List.mem_of_mem_erase member)
    obtain ⟨later, found'', key⟩ := (undisturbed_lock found free).keys other row' found'
    exact ⟨later, found'', key ▸ same⟩

/-- A transaction's end, however it ends. -/
theorem Sound.ended {world : Memberships Admin Course} (sound : world.Sound) {call : Nat}
    {phase : MembershipCall Admin Course} {change : Row (Admin × Course) → Row (Admin × Course)}
    (apart : Undisturbed call world.table (world.table.map change))
    (traced : Traced world.table (world.table.map change))
    (cleared : ∀ row, row.holder = some call → (change row).marked = false)
    (others : ∀ row, row.holder ≠ some call → change row = row)
    (own : ∀ table, CallSound table call phase) :
    ({ world with table := world.table.map change }.put call phase).Sound := by
  apply sound.moved apart (sound.unique.traced traced) _ (own _)
  intro place row found marked
  rw [List.getElem?_map] at found
  obtain ⟨was, there, rfl⟩ := Option.map_eq_some_iff.mp found
  by_cases mine : was.holder = some call
  · rw [cleared was mine] at marked
    cases marked
  · left
    rw [others was mine]
    exact ⟨there, mine⟩

theorem Sound.rolledBack {world : Memberships Admin Course} (sound : world.Sound) {call : Nat}
    {phase : MembershipCall Admin Course} (own : ∀ table, CallSound table call phase) :
    ({ world with table := world.table.rollback call }.put call phase).Sound := by
  apply sound.ended undisturbed_rollback traced_rollback _ _ own
  · intro row mine
    rw [Row.rollback, if_pos mine]
  · intro row other
    rw [Row.rollback, if_neg other]

theorem Sound.committed {world : Memberships Admin Course} (sound : world.Sound) {call : Nat}
    {phase : MembershipCall Admin Course} (own : ∀ table, CallSound table call phase) :
    ({ world with table := world.table.commit call }.put call phase).Sound := by
  apply sound.ended undisturbed_commit traced_commit _ _ own
  · intro row mine
    rw [Row.commit, if_pos mine]
  · intro row other
    rw [Row.commit, if_neg other]

theorem Sound.inserted {world : Memberships Admin Course} (sound : world.Sound) {call : Nat}
    {admin : Admin} {course : Course} (before : world.calls call = .granting admin course)
    (absent : ¬ world.table.Has (admin, course)) :
    ({ world with table := world.table.insert (admin, course) }.put call .granted).Sound := by
  have own : CallSound (world.table.insert (admin, course)) call .granted := trivial
  apply sound.moved undisturbed_insert (sound.unique.insert absent) _ own
  intro place row found marked
  left
  rw [Table.insert, List.getElem?_append] at found
  split at found
  · exact ⟨found, sound.not_mine (by simp [before]) found marked⟩
  · rw [List.getElem?_singleton] at found
    split at found <;> cases found
    cases marked

section Steps

variable [DecidableEq Admin] [DecidableEq Course]

theorem Sound.deleted {world : Memberships Admin Course} (sound : world.Sound) {call : Nat}
    {admin : Admin} {course : Course} {locked : List Nat}
    (before : world.calls call = .deleting admin course locked) :
    ({ world with table := world.table.mark call (admin, course) }.put call
      (.committing admin course locked)).Sound := by
  have own := sound.calls call
  rw [before] at own
  apply sound.moved undisturbed_mark (sound.unique.traced traced_mark)
  · intro place row found marked
    rw [Table.mark, List.getElem?_map] at found
    obtain ⟨was, there, rfl⟩ := Option.map_eq_some_iff.mp found
    by_cases mine : was.key = (admin, course) ∧ was.holder = some call
    · right
      refine ⟨admin, course, locked, ?_, rfl, ?_⟩
      · rw [Row.mark, if_pos mine]
        exact mine.2
      · rw [Row.mark, if_pos mine]
        exact mine.1
    · left
      rw [Row.mark, if_neg mine] at marked ⊢
      exact ⟨there, sound.not_mine (by simp [before]) there marked⟩
  · refine ⟨⟨own.1.1, fun place member => ?_⟩, own.2⟩
    obtain ⟨row, found, holder, there, taught⟩ := own.1.2 place member
    refine ⟨row.mark call (admin, course), ?_, ?_⟩
    · rw [Table.mark, List.getElem?_map, found, Option.map_some]
    · unfold Row.mark
      split <;> exact ⟨holder, there, taught⟩

theorem Sound.step {world next : Memberships Admin Course} {event : Event Admin Course}
    (sound : world.Sound) (stepped : step world event = some next) : next.Sound := by
  cases moved_of_step stepped with
  | missing before => exact sound.put (by simp [before]) trivial
  | present before => exact sound.put (by simp [before]) trivial
  | inserted before absent => exact sound.inserted before absent
  | duplicate before => exact sound.put (by simp [before]) trivial
  | @began call admin course before =>
      apply sound.put (by simp [before])
      refine ⟨fun place member => ?_, List.nodup_nil, fun place member => by cases member⟩
      obtain ⟨row, found, _, taught⟩ := mem_snapshot_iff.mp member
      exact ⟨row, found, of_decide_eq_true taught⟩
  | @passed call place admin course left locked before =>
      have own := sound.calls call
      rw [before] at own
      apply sound.put (by simp [before])
      exact ⟨fun other member => own.1 other (List.mem_of_mem_erase member), own.2⟩
  | locked before wanted found there free => exact sound.locked before wanted found there free
  | refused before => exact sound.put (by simp [before]) trivial
  | @allowed call admin course locked before several =>
      have own := sound.calls call
      rw [before] at own
      exact sound.put (by simp [before]) ⟨own.2, several⟩
  | deleted before => exact sound.deleted before
  | rolledBack before => exact sound.rolledBack fun _ => trivial
  | @committed call heard admin course locked before =>
      apply sound.committed
      intro table
      cases heard <;> trivial
  | failed before => exact sound.rolledBack fun _ => trivial

end Steps

/-! ### A course that is taught stays taught -/

/-- The committed memberships have one of the course. -/
def HasMember (world : Memberships Admin Course) (course : Course) : Prop :=
  ∃ (place : Nat) (row : Row (Admin × Course)), world.table[place]? = some row ∧
    row.gone = false ∧ row.key.2 = course

theorem HasMember.map {world : Memberships Admin Course} {course : Course}
    (has : world.HasMember course) {call : Nat} {phase : MembershipCall Admin Course}
    {change : Row (Admin × Course) → Row (Admin × Course)}
    (keys : ∀ row, (change row).key = row.key) (gone : ∀ row, (change row).gone = row.gone) :
    ({ world with table := world.table.map change }.put call phase).HasMember course := by
  obtain ⟨place, row, found, there, taught⟩ := has
  refine ⟨place, change row, ?_, (gone row).trans there,
    (congrArg Prod.snd (keys row)).trans taught⟩
  change (world.table.map change)[place]? = _
  rw [List.getElem?_map, found, Option.map_some]

theorem HasMember.locked {world : Memberships Admin Course} {course : Course}
    (has : world.HasMember course) {call place : Nat} {phase : MembershipCall Admin Course} :
    ({ world with table := world.table.lock call place }.put call phase).HasMember course := by
  obtain ⟨other, row, found, there, taught⟩ := has
  refine ⟨other, if place = other then { row with holder := some call } else row, ?_, ?_, ?_⟩
  · change (world.table.lock call place)[other]? = _
    rw [Table.lock, List.getElem?_modify, found]
    rfl
  · split <;> exact there
  · split <;> exact taught

theorem HasMember.inserted {world : Memberships Admin Course} {course : Course}
    (has : world.HasMember course) {call : Nat} {phase : MembershipCall Admin Course}
    {key : Admin × Course} :
    ({ world with table := world.table.insert key }.put call phase).HasMember course := by
  obtain ⟨place, row, found, there, taught⟩ := has
  have within := (List.getElem?_eq_some_iff.mp found).1
  exact ⟨place, row, (List.getElem?_append_left within).trans found, there, taught⟩

/-- Of two rows that a call has locked, one stays when it commits: it deletes one key,
and their keys differ. -/
theorem HasMember.committed {world : Memberships Admin Course} (sound : world.Sound)
    {call : Nat} {admin : Admin} {own : Course} {locked : List Nat}
    (before : world.calls call = .committing admin own locked) {course : Course}
    (has : world.HasMember course) {phase : MembershipCall Admin Course} :
    ({ world with table := world.table.commit call }.put call phase).HasMember course := by
  have stays : ∀ (place : Nat) (row : Row (Admin × Course)), world.table[place]? = some row →
      row.gone = false → row.key ≠ (admin, own) →
      (world.table.commit call)[place]? = some (row.commit call) ∧
        (row.commit call).gone = false ∧ (row.commit call).key.2 = row.key.2 := by
    intro place row found there other
    refine ⟨by rw [Table.commit, List.getElem?_map, found, Option.map_some], ?_⟩
    unfold Row.commit
    split
    · next mine =>
        refine ⟨?_, rfl⟩
        have unmarked : row.marked = false := by
          rw [← Bool.not_eq_true]
          intro marked
          obtain ⟨owner, _, _, _, holder, doing, key⟩ := sound.marks place row found marked
          obtain rfl := Option.some.inj (mine.symm.trans holder)
          cases before.symm.trans doing
          exact other key
        simp [there, unmarked]
    · exact ⟨there, rfl⟩
  by_cases same : course = own
  · subst same
    have having := sound.calls call
    rw [before] at having
    obtain ⟨⟨distinct, rows⟩, several⟩ := having
    -- Two places of the list, which are different places.
    have first : 0 < locked.length := by omega
    have second : 1 < locked.length := several
    obtain ⟨row, found, _, there, taught⟩ := rows _ (List.getElem_mem first)
    obtain ⟨row', found', _, there', taught'⟩ := rows _ (List.getElem_mem second)
    have keys : row.key ≠ row'.key := by
      intro equal
      have place := sound.unique _ _ row row' found found' there there' equal
      have index := (List.Nodup.getElem_inj_iff distinct).mp place
      cases index
    by_cases this : row.key = (admin, course)
    · have other : row'.key ≠ (admin, course) := fun equal => keys (this.trans equal.symm)
      obtain ⟨at', kept, key⟩ := stays _ row' found' there' other
      exact ⟨_, _, at', kept, key.trans taught'⟩
    · obtain ⟨at', kept, key⟩ := stays _ row found there this
      exact ⟨_, _, at', kept, key.trans taught⟩
  · obtain ⟨place, row, found, there, taught⟩ := has
    have other : row.key ≠ (admin, own) := by
      intro equal
      rw [equal] at taught
      exact same taught.symm
    obtain ⟨at', kept, key⟩ := stays place row found there other
    exact ⟨place, _, at', kept, key.trans taught⟩

section Runs

variable [DecidableEq Admin] [DecidableEq Course]

theorem HasMember.step {world next : Memberships Admin Course} {event : Event Admin Course}
    {course : Course} (sound : world.Sound) (has : world.HasMember course)
    (stepped : step world event = some next) : next.HasMember course := by
  cases moved_of_step stepped with
  | missing before | present before | duplicate before | began before | passed before
  | refused before | allowed before => exact has
  | inserted before absent => exact has.inserted
  | locked before wanted found there free => exact has.locked
  | deleted before =>
      apply has.map
      · intro row
        unfold Row.mark
        split <;> rfl
      · intro row
        unfold Row.mark
        split <;> rfl
  | committed before => exact has.committed sound before
  | rolledBack before | failed before =>
      apply has.map
      · intro row
        unfold Row.rollback
        split <;> rfl
      · intro row
        unfold Row.rollback
        split <;> rfl

end Runs

/-! ### A refused removal changes nothing -/

/-- The call can no longer be refused. -/
def Unrefusable : MembershipCall Admin Course → Prop
  | .idle | .locking _ _ _ _ | .refusing _ => False
  | .answered outcome => outcome = .removed
  | _ => True

theorem put_self (world : Memberships Admin Course) (call : Nat)
    (phase : MembershipCall Admin Course) : (world.put call phase).calls call = phase :=
  Function.update_self _ _ _

theorem put_of_ne {world : Memberships Admin Course} {call other : Nat}
    {phase : MembershipCall Admin Course} (different : other ≠ call) :
    (world.put call phase).calls other = world.calls other :=
  Function.update_of_ne different _ _

/-- What becomes of one call's phase, whoever takes a step. -/
theorem Unrefusable.put {world : Memberships Admin Course} {table : Table (Admin × Course)}
    {call other : Nat} {phase : MembershipCall Admin Course}
    (unrefusable : Unrefusable (world.calls other))
    (own : Unrefusable (world.calls call) → Unrefusable phase) :
    Unrefusable (({ world with table }.put call phase).calls other) := by
  by_cases same : other = call
  · subst same
    rw [put_self]
    exact own unrefusable
  · rw [put_of_ne same]
    exact unrefusable

theorem contents_map {table : Table (Admin × Course)}
    {change : Row (Admin × Course) → Row (Admin × Course)}
    (same : ∀ row ∈ table, (change row).key = row.key ∧ (change row).marked = row.marked ∧
      (change row).gone = row.gone) :
    Table.contents (table.map change) = table.contents := by
  unfold Table.contents
  rw [List.map_map]
  apply List.map_congr_left
  intro row member
  obtain ⟨key, marked, gone⟩ := same row member
  simp [key, marked, gone]

theorem contents_lock {table : Table (Admin × Course)} {call place : Nat} :
    (table.lock call place).contents = table.contents := by
  apply List.ext_getElem?
  intro other
  simp only [Table.contents, Table.lock, List.getElem?_map, List.getElem?_modify]
  cases table[other]? with
  | none => rfl
  | some row => by_cases here : place = other <;> simp [here]

section Refusals

variable [DecidableEq Admin] [DecidableEq Course]

theorem unrefusable_step {world next : Memberships Admin Course}
    {event : Event Admin Course} {other : Nat} (unrefusable : Unrefusable (world.calls other))
    (stepped : step world event = some next) : Unrefusable (next.calls other) := by
  cases moved_of_step stepped with
  | missing before | present before | inserted before absent | duplicate before
  | allowed before | deleted before | failed before =>
      exact unrefusable.put fun _ => trivial
  | began before | passed before | locked before | refused before | rolledBack before =>
      exact unrefusable.put fun own => by simp [before, Unrefusable] at own
  | @committed call heard admin course locked before =>
      apply unrefusable.put
      intro _
      cases heard <;> trivial

/-- Every step of a call that is refused in the end leaves the memberships alone. -/
theorem contents_step {world next : Memberships Admin Course} {event : Event Admin Course}
    (sound : world.Sound) (refusable : ¬ Unrefusable (next.calls event.call))
    (stepped : step world event = some next) :
    next.table.contents = world.table.contents := by
  cases moved_of_step stepped with
  | missing before | present before | inserted before absent | duplicate before
  | allowed before | deleted before | failed before =>
      dsimp only [Event.call] at refusable
      rw [put_self] at refusable
      exact absurd trivial refusable
  | began before | passed before | refused before => rfl
  | locked before wanted found there free => exact contents_lock
  | rolledBack before =>
      apply contents_map
      intro row member
      obtain ⟨place, found⟩ := List.mem_iff_getElem?.mp member
      unfold Row.rollback
      split
      · next mine =>
          have unmarked : row.marked = false := by
            rw [← Bool.not_eq_true]
            intro marked
            exact sound.not_mine (by simp [before]) found marked mine
          simp [unmarked]
      · exact ⟨rfl, rfl, rfl⟩
  | @committed call heard admin course locked before =>
      dsimp only [Event.call] at refusable
      rw [put_self] at refusable
      exact absurd (by cases heard <;> trivial) refusable

/-- A course that has a member never loses its last one, and a removal that is refused
changes nothing. -/
theorem courses_keep_members (members : List (Admin × Course)) (distinct : members.Nodup)
    (past rest : List (Event Admin Course)) (middle final : Memberships Admin Course)
    (began : run step (start members) past = some middle)
    (ended : run step middle rest = some final) :
    (∀ course, middle.HasMember course → final.HasMember course) ∧
      ∀ event after, (∃ later, rest = event :: later) → step middle event = some after →
        ∀ outcome, final.calls event.call = .answered outcome → outcome ≠ .removed →
          after.table.contents = middle.table.contents := by
  have sound : middle.Sound :=
    invariant_of_run (fun _ _ _ sound stepped => sound.step stepped) (sound_start distinct) began
  constructor
  · intro course has
    have kept : final.Sound ∧ final.HasMember course := by
      apply invariant_of_run _ ⟨sound, has⟩ ended
      intro world event next ⟨sound, has⟩ stepped
      exact ⟨sound.step stepped, has.step sound stepped⟩
    exact kept.2
  · rintro event after ⟨later, rfl⟩ stepped outcome answered refused
    obtain ⟨_, same, onward⟩ := run_cons_eq_some_iff.mp ended
    obtain rfl := Option.some.inj (stepped.symm.trans same)
    apply contents_step sound _ stepped
    intro unrefusable
    have gone : Unrefusable (final.calls event.call) :=
      invariant_of_run (fun _ _ _ unrefusable stepped => unrefusable_step unrefusable stepped)
        unrefusable onward
    rw [answered] at gone
    exact refused gone

end Refusals

/-- Two teachers of course 7 each remove the other.  Both have found the two rows when
the first locks them; the second finds itself the last. -/
theorem courses_keep_members_mutual :
    ∃ middle final : Memberships Nat Nat,
      run step (start [(0, 7), (1, 7)])
        [.revoke 0 1 7, .revoke 1 0 7, .visit 0 0, .visit 0 1, .decide 0, .delete 0] =
          some middle ∧
      run step middle [.commit 0 true, .visit 1 1, .visit 1 0, .decide 1, .rollback 1] =
        some final ∧
      final.calls 0 = .answered .removed ∧ final.calls 1 = .answered .lastMember ∧
      final.HasMember 7 :=
  ⟨_, _, rfl, rfl, rfl, rfl,
    (courses_keep_members [(0, 7), (1, 7)] (by decide)
      [.revoke 0 1 7, .revoke 1 0 7, .visit 0 0, .visit 0 1, .decide 0, .delete 0]
      [.commit 0 true, .visit 1 1, .visit 1 0, .decide 1, .rollback 1] _ _ rfl rfl).1 7
      ⟨0, _, rfl, rfl, rfl⟩⟩

end Memberships

end Hermione
