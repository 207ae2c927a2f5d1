import Mathlib.Logic.Function.Basic
import Hermione.EventRuns
import Hermione.RowLocks

/-!
# Who teaches a course

Memberships are rows of one table.  Granting one looks for its row and inserts it if
there is none; revoking one locks the course's rows in a transaction, and deletes the
row unless it is the course's last.  Any number of calls run at once, and any of them
can fail before it has answered.
-/

namespace Hermione

open EventRuns RowLocks

variable {Admin Course : Type}

/-- Outcome of a checked membership revocation. -/
inductive RevokeOutcome where
  | removed
  | notAMember
  | lastMember
  deriving DecidableEq

/-- How far a call is. -/
inductive MembershipCall (Admin Course : Type) where
  | idle
  /-- `grant_membership` has found no row. -/
  | granting (admin : Admin) (course : Course)
  | granted
  /-- The course's rows are being locked: those left, and those that are. -/
  | locking (admin : Admin) (course : Course) (left locked : List Nat)
  | deleting (admin : Admin) (course : Course) (locked : List Nat)
  | committing (admin : Admin) (course : Course) (locked : List Nat)
  /-- Removal is refused; the transaction is yet to be rolled back. -/
  | refusing (outcome : RevokeOutcome)
  | answered (outcome : RevokeOutcome)
  | failed

structure Memberships (Admin Course : Type) where
  table : Table (Admin × Course)
  calls : Nat → MembershipCall Admin Course

namespace Memberships

inductive Event (Admin Course : Type) where
  | grant (call : Nat) (admin : Admin) (course : Course)
  | insert (call : Nat)
  | revoke (call : Nat) (admin : Admin) (course : Course)
  /-- The next row that was found is locked, or passed over. -/
  | visit (call : Nat) (place : Nat)
  | decide (call : Nat)
  | delete (call : Nat)
  | rollback (call : Nat)
  /-- The transaction is committed; the caller may not get to hear of it. -/
  | commit (call : Nat) (heard : Bool)
  | fail (call : Nat)

def Event.call : Event Admin Course → Nat
  | .grant call _ _ | .insert call | .revoke call _ _ | .visit call _ | .decide call
  | .delete call | .rollback call | .commit call _ | .fail call => call

def start (members : List (Admin × Course)) : Memberships Admin Course :=
  { table := members.map Row.fresh, calls := fun _ => .idle }

def put (world : Memberships Admin Course) (call : Nat) (phase : MembershipCall Admin Course) :
    Memberships Admin Course :=
  { world with calls := Function.update world.calls call phase }

section Calls

variable [DecidableEq Admin] [DecidableEq Course]

/-- What the locked rows say. -/
def judge (admin : Admin) (members : List (Admin × Course)) : Option RevokeOutcome :=
  if !(members.any fun member => member.1 = admin) then some .notAMember
  else if members.length ≤ 1 then some .lastMember
  else none

def step (world : Memberships Admin Course) :
    Event Admin Course → Option (Memberships Admin Course)
  | .grant call admin course =>
      match world.calls call with
      | .idle =>
          if (world.table.snapshot (· = (admin, course))).isEmpty then
            some (world.put call (.granting admin course))
          else some (world.put call .granted)
      | _ => none
  | .insert call =>
      match world.calls call with
      | .granting admin course =>
          match world.table.find? fun row => !row.gone && row.key = (admin, course) with
          | none =>
              some ({ world with table := world.table.insert (admin, course) }.put call .granted)
          -- A row that is being deleted is waited for, another is a duplicate.
          | some row => if row.marked then none else some (world.put call .failed)
      | _ => none
  | .revoke call admin course =>
      match world.calls call with
      | .idle =>
          let found := world.table.snapshot fun key => key.2 = course
          some (world.put call (.locking admin course found []))
      | _ => none
  | .visit call place =>
      match world.calls call with
      | .locking admin course left locked =>
          if place ∈ left then
            match world.table[place]? with
            | none => none
            | some row =>
                if row.gone then
                  some (world.put call (.locking admin course (left.erase place) locked))
                else if row.holder = none then
                  some ({ world with table := world.table.lock call place }.put call
                    (.locking admin course (left.erase place) (locked ++ [place])))
                else none
          else none
      | _ => none
  | .decide call =>
      match world.calls call with
      | .locking admin course [] locked =>
          let members := locked.filterMap fun place => world.table[place]?.map Row.key
          match judge admin members with
          | some outcome => some (world.put call (.refusing outcome))
          | none => some (world.put call (.deleting admin course locked))
      | _ => none
  | .delete call =>
      match world.calls call with
      | .deleting admin course locked =>
          some ({ world with table := world.table.mark call (admin, course) }.put call
            (.committing admin course locked))
      | _ => none
  | .rollback call =>
      match world.calls call with
      | .refusing outcome =>
          some ({ world with table := world.table.rollback call }.put call (.answered outcome))
      | _ => none
  | .commit call heard =>
      match world.calls call with
      | .committing _ _ _ =>
          some ({ world with table := world.table.commit call }.put call
            (if heard then .answered .removed else .failed))
      | _ => none
  | .fail call =>
      match world.calls call with
      | .idle | .granted | .answered _ | .failed => none
      | _ => some ({ world with table := world.table.rollback call }.put call .failed)

/-! ### What a step can do -/

/-- The steps, each with what the call was doing and what becomes of it. -/
inductive Moved (world : Memberships Admin Course) :
    Event Admin Course → Memberships Admin Course → Prop where
  | missing {call : Nat} {admin : Admin} {course : Course}
      (before : world.calls call = .idle) :
      Moved world (.grant call admin course) (world.put call (.granting admin course))
  | present {call : Nat} {admin : Admin} {course : Course}
      (before : world.calls call = .idle) :
      Moved world (.grant call admin course) (world.put call .granted)
  | inserted {call : Nat} {admin : Admin} {course : Course}
      (before : world.calls call = .granting admin course)
      (absent : ¬ world.table.Has (admin, course)) :
      Moved world (.insert call)
        ({ world with table := world.table.insert (admin, course) }.put call .granted)
  | duplicate {call : Nat} {admin : Admin} {course : Course}
      (before : world.calls call = .granting admin course) :
      Moved world (.insert call) (world.put call .failed)
  | began {call : Nat} {admin : Admin} {course : Course}
      (before : world.calls call = .idle) :
      Moved world (.revoke call admin course) (world.put call
        (.locking admin course (world.table.snapshot fun key => key.2 = course) []))
  | passed {call place : Nat} {admin : Admin} {course : Course} {left locked : List Nat}
      (before : world.calls call = .locking admin course left locked) :
      Moved world (.visit call place)
        (world.put call (.locking admin course (left.erase place) locked))
  | locked {call place : Nat} {admin : Admin} {course : Course} {left locked : List Nat}
      {row : Row (Admin × Course)}
      (before : world.calls call = .locking admin course left locked)
      (wanted : place ∈ left) (found : world.table[place]? = some row)
      (there : row.gone = false) (free : row.holder = none) :
      Moved world (.visit call place)
        ({ world with table := world.table.lock call place }.put call
          (.locking admin course (left.erase place) (locked ++ [place])))
  | refused {call : Nat} {admin : Admin} {course : Course} {locked : List Nat}
      {outcome : RevokeOutcome}
      (before : world.calls call = .locking admin course [] locked) :
      Moved world (.decide call) (world.put call (.refusing outcome))
  | allowed {call : Nat} {admin : Admin} {course : Course} {locked : List Nat}
      (before : world.calls call = .locking admin course [] locked)
      (several : 2 ≤ locked.length) :
      Moved world (.decide call) (world.put call (.deleting admin course locked))
  | deleted {call : Nat} {admin : Admin} {course : Course} {locked : List Nat}
      (before : world.calls call = .deleting admin course locked) :
      Moved world (.delete call)
        ({ world with table := world.table.mark call (admin, course) }.put call
          (.committing admin course locked))
  | rolledBack {call : Nat} {outcome : RevokeOutcome}
      (before : world.calls call = .refusing outcome) :
      Moved world (.rollback call)
        ({ world with table := world.table.rollback call }.put call (.answered outcome))
  | committed {call : Nat} {heard : Bool} {admin : Admin} {course : Course} {locked : List Nat}
      (before : world.calls call = .committing admin course locked) :
      Moved world (.commit call heard)
        ({ world with table := world.table.commit call }.put call
          (if heard then .answered .removed else .failed))
  | failed {call : Nat} (before : ∀ outcome, world.calls call ≠ .answered outcome) :
      Moved world (.fail call)
        ({ world with table := world.table.rollback call }.put call .failed)

omit [DecidableEq Course] in
theorem two_le_of_judge {admin : Admin} {members : List (Admin × Course)}
    (allowed : judge admin members = none) : 2 ≤ members.length := by
  unfold judge at allowed
  split at allowed
  · cases allowed
  · split at allowed
    · cases allowed
    · omega

theorem moved_of_step {world next : Memberships Admin Course} {event : Event Admin Course}
    (stepped : step world event = some next) : Moved world event next := by
  unfold step at stepped
  cases event with
  | grant call admin course =>
      dsimp only at stepped
      split at stepped
      · next before =>
          split at stepped <;> cases stepped
          · exact .missing before
          · exact .present before
      · cases stepped
  | insert call =>
      dsimp only at stepped
      split at stepped
      · next admin course before =>
          split at stepped
          · next none =>
              cases stepped
              apply Moved.inserted before
              rintro ⟨row, member, there, same⟩
              have absent := List.find?_eq_none.mp none row member
              exact absent (by simp [there, same])
          · split at stepped
            · cases stepped
            · cases stepped
              exact .duplicate before
      · cases stepped
  | revoke call admin course =>
      dsimp only at stepped
      split at stepped
      · next before =>
          cases stepped
          exact .began before
      · cases stepped
  | visit call place =>
      dsimp only at stepped
      split at stepped
      · next admin course left locked before =>
          split at stepped
          · next wanted =>
              split at stepped
              · cases stepped
              · next row found =>
                  split at stepped
                  · cases stepped
                    exact .passed before
                  · next there =>
                      split at stepped
                      · next free =>
                          cases stepped
                          exact .locked before wanted found (Bool.not_eq_true _ ▸ there) free
                      · cases stepped
          · cases stepped
      · cases stepped
  | decide call =>
      dsimp only at stepped
      split at stepped
      · next admin course locked before =>
          split at stepped
          · cases stepped
            exact .refused before
          · next allowed =>
              cases stepped
              apply Moved.allowed before
              have several := two_le_of_judge allowed
              exact Nat.le_trans several (List.length_filterMap_le _ _)
      · cases stepped
  | delete call =>
      dsimp only at stepped
      split at stepped
      · next before =>
          cases stepped
          exact .deleted before
      · cases stepped
  | rollback call =>
      dsimp only at stepped
      split at stepped
      · next before =>
          cases stepped
          exact .rolledBack before
      · cases stepped
  | commit call heard =>
      dsimp only at stepped
      split at stepped
      · next before =>
          cases stepped
          exact .committed before
      · cases stepped
  | fail call =>
      dsimp only at stepped
      split at stepped <;> cases stepped
      next idle granted answered failed =>
        exact .failed fun outcome same => answered outcome same

end Calls

end Memberships

end Hermione
