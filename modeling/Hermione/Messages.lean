import Mathlib.Data.List.Sort
import Hermione.Gates

/-!
# Teachers' messages to students

A message is one row for each audience.  Who may see a row is decided twice: by
the database when it selects what a listener missed, and in memory when a message
goes out live.
-/

namespace Hermione

/-- A row of `messages`.  No student is the whole course. -/
structure MessageRow where
  id : Int
  courseId : Uuid
  body : Str
  student : Option Str
  createdAtUnixMs : Int
  deriving DecidableEq

/-- A message pushed to a course's listeners. -/
structure MessageOut where
  id : Int
  body : Str
  createdAtUnixMs : Int
  audience : Audience
  deriving DecidableEq

/-- A control frame for one student's editor. -/
inductive Control where
  | snapshotRequest
  deriving DecidableEq, Repr

/-- A row whose recipient is blank is dropped rather than shown to everyone. -/
def MessageOut.tryFrom (row : MessageRow) : Except BlankName MessageOut :=
  let out (audience : Audience) : MessageOut :=
    { id := row.id, body := row.body, createdAtUnixMs := row.createdAtUnixMs, audience }
  match row.student with
  | none => .ok (out .everyone)
  | some name => (Student.tryFrom name).map fun student => out (.student student)

/-- Which stored messages a listener may be shown: the course's own, and those
addressed to their student. -/
def addressedTo (listener : Option Student) (row : MessageRow) : Bool :=
  let everyone := row.student.isNone
  match listener with
  | some student => everyone || row.student == some student.name
  | none => everyone

/-- The most messages one query answers with. -/
def POLL_LIMIT : Nat :=
  50

/-- The query for what a listener missed. -/
def missed (table : List MessageRow) (course : Uuid) (since : Int)
    (listener : Option Student) : List MessageRow :=
  ((table.filter fun row =>
      row.courseId = course && since < row.id && addressedTo listener row).insertionSort
    fun first second => first.id ≤ second.id).take POLL_LIMIT

/-- The rows that can be shown. -/
def shown (rows : List MessageRow) : List MessageOut :=
  rows.filterMap fun row => (MessageOut.tryFrom row).toOption

/-- Most students one message may be addressed to. -/
def MAX_RECIPIENTS : Nat :=
  500

structure BroadcastRequest where
  course : Option Str
  text : Str
  /-- Just these students; nobody in particular is the whole course. -/
  students : Option (List Student)

/-- The students of a request, each once, in the order they are first named. -/
def unique (students : List Student) : List Student :=
  students.foldl (fun kept student => if kept.contains student then kept else kept ++ [student]) []

def audiencesOf (request : BroadcastRequest) : Except ApiError (List Audience) :=
  match request.students with
  | none => .ok [.everyone]
  | some students =>
      let unique := unique students
      if unique.isEmpty then .error (.refused .badRequest "no students to send to")
      else if MAX_RECIPIENTS < unique.length then
        .error (.refused .badRequest "too many students in one message")
      else .ok (unique.map .student)

/-- What a broadcast is to send, and to whom, once the request was found in
order. -/
def broadcastOf (request : BroadcastRequest) : Except ApiError (Str × List Audience) :=
  let text := request.text.trim
  if text.isEmpty then .error (.refused .badRequest "empty message")
  else (audiencesOf request).map fun audiences => (text, audiences)

/-- The recipient stored for an audience. -/
def Audience.stored : Audience → Option Str
  | .everyone => none
  | .student only => some only.name

/-! ## The two judges of who may see a message -/

theorem tryFrom_eq_ok_iff {row : MessageRow} {out : MessageOut} :
    MessageOut.tryFrom row = .ok out ↔
      row.student = out.audience.stored ∧ row.id = out.id ∧ row.body = out.body ∧
        row.createdAtUnixMs = out.createdAtUnixMs := by
  obtain ⟨id, body, createdAt, audience⟩ := out
  unfold MessageOut.tryFrom
  cases stored : row.student with
  | none =>
      cases audience with
      | everyone => simp [Audience.stored]
      | student only => simp [Audience.stored]
  | some name =>
      cases tried : Student.tryFrom name with
      | error error =>
          cases audience with
          | everyone => simp [tried, Except.map, Audience.stored]
          | student only =>
              simp only [tried, Except.map, Audience.stored, reduceCtorEq, Option.some.injEq,
                false_iff, not_and]
              rintro rfl
              rw [Student.tryFrom_eq_ok_iff.mpr rfl] at tried
              simp at tried
      | ok student =>
          have named := Student.tryFrom_eq_ok_iff.mp tried
          cases audience with
          | everyone => simp [tried, Except.map, Audience.stored]
          | student only =>
              have same : student = only ↔ name = only.name :=
                ⟨fun same => by rw [← same, named],
                  fun same => Student.ext_name (named.trans same)⟩
              simp only [tried, Except.map, Audience.stored, Except.ok.injEq,
                MessageOut.mk.injEq, Audience.student.injEq, Option.some.injEq, same]
              tauto

/-- The database's filter and the one in memory agree on every message. -/
theorem addressedTo_iff_reaches {row : MessageRow} {out : MessageOut}
    (made : MessageOut.tryFrom row = .ok out) (listener : Option Student) :
    addressedTo listener row = out.audience.reaches listener := by
  obtain ⟨stored, -⟩ := tryFrom_eq_ok_iff.mp made
  unfold addressedTo
  rw [stored]
  cases out.audience with
  | everyone => cases listener <;> simp [Audience.stored, Audience.reaches]
  | student only =>
      cases listener with
      | none => simp [Audience.stored, Audience.reaches]
      | some student =>
          simp only [Audience.stored, Audience.reaches, Option.isNone_some, Bool.false_or]
          rw [Bool.eq_iff_iff, beq_iff_eq, beq_iff_eq, Option.some.injEq, Option.some.injEq]
          exact ⟨fun same => (Student.ext_name same).symm, fun same => by rw [same]⟩

/-- A recipient that is not blank makes a message. -/
theorem exists_tryFrom {row : MessageRow}
    (recipient : ∀ name, row.student = some name → name.trim ≠ []) :
    ∃ out, MessageOut.tryFrom row = .ok out := by
  cases stored : row.student with
  | none =>
      exact ⟨⟨row.id, row.body, row.createdAtUnixMs, .everyone⟩,
        tryFrom_eq_ok_iff.mpr ⟨stored, rfl, rfl, rfl⟩⟩
  | some name =>
      exact ⟨⟨row.id, row.body, row.createdAtUnixMs, .student ⟨name, recipient name stored⟩⟩,
        tryFrom_eq_ok_iff.mpr ⟨stored, rfl, rfl, rfl⟩⟩

/-- What the query selects is the course's and the listener's. -/
theorem mem_missed {table : List MessageRow} {course : Uuid} {since : Int}
    {listener : Option Student} {row : MessageRow}
    (selected : row ∈ missed table course since listener) :
    row ∈ table ∧ row.courseId = course ∧ since < row.id ∧
      addressedTo listener row = true := by
  have member := List.mem_of_mem_take selected
  rw [List.mem_insertionSort, List.mem_filter] at member
  simpa [and_assoc] using member

theorem mem_shown {rows : List MessageRow} {out : MessageOut} :
    out ∈ shown rows ↔ ∃ row ∈ rows, MessageOut.tryFrom row = .ok out := by
  simp only [shown, List.mem_filterMap]
  apply exists_congr
  intro row
  apply and_congr_right
  intro _
  cases MessageOut.tryFrom row <;> simp [Except.toOption]

/-- What is shown keeps its numbers, in order. -/
theorem shown_ids_sublist (rows : List MessageRow) :
    List.Sublist ((shown rows).map MessageOut.id) (rows.map MessageRow.id) := by
  induction rows with
  | nil => exact .slnil
  | cons row rows ih =>
      unfold shown at ih ⊢
      cases made : MessageOut.tryFrom row with
      | error error =>
          rw [List.filterMap_cons, made]
          exact ih.cons row.id
      | ok out =>
          have same : row.id = out.id := (tryFrom_eq_ok_iff.mp made).2.1
          rw [List.filterMap_cons, made]
          simpa only [Except.toOption, List.map_cons, same] using ih.cons_cons out.id

theorem nodup_missed {table : List MessageRow} (unique : (table.map MessageRow.id).Nodup)
    (course : Uuid) (since : Int) (listener : Option Student) :
    ((missed table course since listener).map MessageRow.id).Nodup := by
  apply List.Nodup.sublist ((List.take_sublist _ _).map _)
  apply ((List.perm_insertionSort _ _).map _).nodup_iff.mpr
  exact unique.sublist (List.filter_sublist.map _)

end Hermione
