import Hermione.MessageWorld
import Hermione.SnapshotIngest

/-!
# Where the two gates place an editor

A file snapshot is stored in one slot and the editor's message socket takes the
control frames of one slot.  The first gate knows editors without an enrollment
token, the second takes everyone without one for a teacher.
-/

namespace Hermione

section Slots

variable (access : Access) (jwt : JsonWebToken) (now : Int)

/-- The slot a file snapshot posted with these credentials is stored in. -/
def snapshotSlot (claimed : Student) (headers : Headers) : Except ApiError Slot := do
  let (course, verified) ← requireIngest access jwt now headers
  let student ← Ingest.studentOf verified claimed
  return ⟨course, student⟩

/-- The slot whose control frames a message socket opened with them takes. -/
def controlSlot (request : WsQuery) (headers : Headers) : Except ApiError (Option Slot) := do
  let (course, student) ← listener access jwt now request headers
  return student.map fun student => ⟨course, student⟩

end Slots

section Agreement

variable {access : Access} {jwt : JsonWebToken} {now : Int} {headers : Headers}
  {claimed : Student} {request : WsQuery} {slot : Slot}

/-- Both gates judge a name in the same way. -/
theorem routed_eq_studentOf (verified : Option Str) (claimed : Student) :
    routed verified (some claimed) = (Ingest.studentOf verified claimed).map some := by
  cases verified with
  | none => rfl
  | some name =>
      unfold routed routingStudent Ingest.studentOf
      dsimp only
      cases Student.tryFrom name <;> rfl

/-- With an enrollment token the two slots are one. -/
theorem controlSlot_of_token {token : Str} (shown : bearerToken headers = some token)
    (same : request.student = some claimed) :
    controlSlot access jwt now request headers =
      (snapshotSlot access jwt now claimed headers).map some := by
  unfold controlSlot snapshotSlot listener requireIngest ingestCourse
  rw [shown, Option.some_or]
  dsimp only
  cases enrolledCourse access token with
  | error error => rfl
  | ok course =>
      cases judged : verifiedStudent access jwt now headers with
      | error error => simp [bind, Except.bind, Except.map]
      | ok verified =>
          simp only [bind, Except.bind, pure, Except.pure, same, routed_eq_studentOf]
          cases Ingest.studentOf verified claimed <;> rfl

/-- Without one a socket takes nobody's control frames. -/
theorem controlSlot_of_no_token (none : bearerToken headers = none)
    (also : request.token = Option.none) (slot : Slot) :
    controlSlot access jwt now request headers ≠ .ok (some slot) := by
  intro accepted
  unfold controlSlot at accepted
  obtain ⟨⟨course, student⟩, listening, same⟩ := bind_eq_ok_iff.mp accepted
  unfold listener at listening
  rw [none, also] at listening
  dsimp only [Option.none_or] at listening
  split at listening
  · obtain ⟨resolved, -, teacher⟩ := bind_eq_ok_iff.mp listening
    obtain ⟨rfl, rfl⟩ := Prod.mk.inj (Except.ok.inj teacher)
    simp [pure, Except.pure] at same
  · simp [throw, throwThe, MonadExceptOf.throw] at listening

/-- An editor whose snapshots are stored is told when a teacher asks for one exactly
when it shows an enrollment token. -/
theorem controlSlot_eq_snapshotSlot_iff
    (stored : snapshotSlot access jwt now claimed headers = .ok slot)
    (same : request.student = some claimed)
    (only : ∀ token, request.token = some token → bearerToken headers = some token) :
    controlSlot access jwt now request headers = .ok (some slot) ↔
      (bearerToken headers).isSome = true := by
  cases shown : bearerToken headers with
  | some token =>
      rw [controlSlot_of_token shown same, stored]
      exact iff_of_true rfl rfl
  | none =>
      have also : request.token = none := by
        cases given : request.token with
        | none => rfl
        | some token =>
            have := only token given
            rw [shown] at this
            simp at this
      simpa using controlSlot_of_no_token shown also slot

end Agreement

/-- A server nobody has taken out of open dev mode. -/
def freshServer : Access :=
  { courses := [⟨DEFAULT_COURSE_ID, "default".toList, "enroll".toList⟩]
    members := []
    sessions := fun _ => none
    openDev := true
    identity := ⟨none, []⟩
    reachable := true }

def anonymous : Headers :=
  ⟨none, none, none⟩

def withToken : Headers :=
  { authorization := some ("Bearer enroll".toList.map fun char => char.toNat.toUInt8)
    hermioneIdentity := none
    cookie := none }

theorem controlSlot_eq_snapshotSlot_withToken :
    controlSlot freshServer (fun _ _ _ => none) 0 ⟨none, none, some 0, some alice⟩ withToken =
      .ok (some ⟨DEFAULT_COURSE_ID, alice⟩) :=
  (controlSlot_eq_snapshotSlot_iff rfl rfl (by simp)).mpr rfl

/-- In open dev mode an editor without a token is asked for nothing. -/
theorem controlSlot_ne_snapshotSlot_anonymous :
    snapshotSlot freshServer (fun _ _ _ => none) 0 alice anonymous =
        .ok ⟨DEFAULT_COURSE_ID, alice⟩ ∧
      controlSlot freshServer (fun _ _ _ => none) 0 ⟨none, none, some 0, some alice⟩
        anonymous ≠ .ok (some ⟨DEFAULT_COURSE_ID, alice⟩) :=
  ⟨rfl, controlSlot_of_no_token rfl rfl _⟩

end Hermione
