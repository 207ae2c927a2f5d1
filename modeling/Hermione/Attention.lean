import Mathlib.Data.List.Nodup
import Hermione.Assessment
import Hermione.OpenFile

/-!
# Who the teacher has not been to yet

The board keeps an entry for every student who is flagged.  It remembers the worst
flag since the student was last not flagged, so that a student is announced once, and
what the teacher has seen or put off stays so until things get worse.
-/

namespace Hermione

namespace Attention

/-- `RANK[s.struggle] || 0`, of the levels that the server answers. -/
def rankOf : Level → Nat
  | .help => 2
  | .watch => 1
  | .ok => 0

/-- What the bookkeeping reads of a student of the board. -/
structure Student where
  student : JsString
  struggle : Level
  secondsOnExercise : Option Int
  deriving DecidableEq, Repr

variable {Time : Type*}

/-- An entry, whose fields may all be missing. -/
structure Entry (Time : Type*) where
  rank : Option Nat
  flaggedAt : Option Time
  seenAt : Option Time
  snoozedUntil : Option Time
  deriving DecidableEq, Repr

/-- An object literal, by its own properties. -/
abbrev Entries (Time : Type*) := JsString → Option (Entry Time)

/-- The names of the functions that every object literal inherits. -/
def inherited : List JsString :=
  ["constructor", "hasOwnProperty", "isPrototypeOf", "propertyIsEnumerable", "toLocaleString",
    "toString", "valueOf", "__defineGetter__", "__defineSetter__", "__lookupGetter__",
    "__lookupSetter__"].map js

/-- `entries[name]`.  An inherited function has none of the fields, and spreading it
copies nothing. -/
def lookup (entries : Entries Time) (name : JsString) : Option (Entry Time) :=
  match entries name with
  | some entry => some entry
  | none => if name ∈ inherited then some ⟨none, none, none, none⟩ else none

structure Update (Time : Type*) where
  entries : Entries Time
  escalated : List JsString

/-- Whether a student was flagged as badly before. -/
def flaggedBefore (entries : Entries Time) (s : Student) : Option (Entry Time) :=
  (lookup entries s.student).filter fun before =>
    match before.rank with
    | some rank => rankOf s.struggle ≤ rank
    | none => false

def updateStudent (entries : Entries Time) (now : Time) (result : Update Time) (s : Student) :
    Update Time :=
  if rankOf s.struggle = 0 then result
  else
    match flaggedBefore entries s with
    | some before => { result with entries := Function.update result.entries s.student before }
    | none =>
        { entries := Function.update result.entries s.student
            (some ⟨some (rankOf s.struggle), some now, none, none⟩)
          escalated :=
            if rankOf s.struggle = 2 then result.escalated ++ [s.student] else result.escalated }

def update (entries : Entries Time) (students : List Student) (now : Time) : Update Time :=
  students.foldl (updateStudent entries now) ⟨fun _ => none, []⟩

/-- `e ? { ...entries, [student]: { ...e, .. } } : entries`. -/
def mark (entries : Entries Time) (student : JsString) (change : Entry Time → Entry Time) :
    Entries Time :=
  match lookup entries student with
  | some entry => Function.update entries student (some (change entry))
  | none => entries

def markSeen (entries : Entries Time) (student : JsString) (now : Time) : Entries Time :=
  mark entries student fun entry => { entry with seenAt := some now }

def snooze (entries : Entries Time) (student : JsString) (ends : Time) : Entries Time :=
  mark entries student fun entry => { entry with snoozedUntil := some ends }

section Waiting

variable [LinearOrder Time]

def isSeen (entries : Entries Time) (student : JsString) : Bool :=
  match lookup entries student with
  | some entry =>
      match entry.seenAt, entry.flaggedAt with
      | some seenAt, some flaggedAt => flaggedAt ≤ seenAt
      | _, _ => false
  | none => false

def isSnoozed (entries : Entries Time) (student : JsString) (now : Time) : Bool :=
  match (lookup entries student).bind Entry.snoozedUntil with
  | some ends => now < ends
  | none => false

/-- Worst first, then whoever has been at the exercise longest, then by name; comparing
names is the browser's. -/
def byUrgency (localeCompare : JsString → JsString → Int) (a b : Student) : Int :=
  let rank : Int := rankOf b.struggle - rankOf a.struggle
  let seconds := b.secondsOnExercise.getD 0 - a.secondsOnExercise.getD 0
  if rank ≠ 0 then rank else if seconds ≠ 0 then seconds else localeCompare a.student b.student

def unseen (localeCompare : JsString → JsString → Int) (entries : Entries Time)
    (students : List Student) (now : Time) : List Student :=
  (students.filter fun s =>
    rankOf s.struggle ≠ 0 && !isSeen entries s.student &&
      !isSnoozed entries s.student now).mergeSort fun a b => byUrgency localeCompare a b ≤ 0

def next (localeCompare : JsString → JsString → Int) (entries : Entries Time)
    (students : List Student) (now : Time) : Option Student :=
  (unseen localeCompare entries students now).head?

end Waiting

/-! ### Histories -/

inductive Call (Time : Type*) where
  | update (students : List Student) (now : Time)
  | markSeen (student : JsString) (now : Time)
  | snooze (student : JsString) (ends : Time)

/-- A call that lists every student once and names none `__proto__`. -/
def Call.Proper : Call Time → Prop
  | .update students _ =>
      (students.map Student.student).Nodup ∧ js "__proto__" ∉ students.map Student.student
  | .markSeen student _ | .snooze student _ => student ≠ js "__proto__"

instance (call : Call Time) : Decidable call.Proper :=
  match call with
  | .update _ _ => inferInstanceAs (Decidable (_ ∧ _))
  | .markSeen _ _ | .snooze _ _ => inferInstanceAs (Decidable (_ ≠ _))

def step (entries : Entries Time) : Call Time → Entries Time
  | .update students now => (update entries students now).entries
  | .markSeen student now => markSeen entries student now
  | .snooze student ends => snooze entries student ends

/-- The entries after some calls, of which there are none at first. -/
def after (calls : List (Call Time)) : Entries Time :=
  calls.foldl step fun _ => none

/-- The level of a student in an update; one who is not listed is not flagged. -/
def levelIn (students : List Student) (name : JsString) : Level :=
  ((students.find? fun s => s.student = name).map Student.struggle).getD .ok

/-- The levels of a student in the updates so far, the latest first. -/
def levels (calls : List (Call Time)) (name : JsString) : List Level :=
  calls.reverse.filterMap fun
    | .update students _ => some (levelIn students name)
    | _ => none

/-- The levels since the student was last not flagged. -/
def currentRun (calls : List (Call Time)) (name : JsString) : List Level :=
  (levels calls name).takeWhile fun level => rankOf level ≠ 0

/-- The worst rank of a run. -/
def worst (levels : List Level) : Nat :=
  levels.foldr (fun level rank => max (rankOf level) rank) 0

/-- What an update after some calls does. -/
structure Attends (history : List (Call Time)) (students : List Student) (now : Time) : Prop where
  /-- Whoever is flagged has an entry, and nobody else. -/
  entries : ∀ name, ((update (after history) students now).entries name).isSome = true ↔
    rankOf (levelIn students name) ≠ 0
  /-- Whoever reaches "help" for the first time in the run is announced. -/
  escalated : ∀ name, name ∈ (update (after history) students now).escalated ↔
    levelIn students name = .help ∧ ∀ earlier ∈ currentRun history name, earlier ≠ .help
  once : (update (after history) students now).escalated.Nodup
  /-- Newly flagged or worse than ever in the run: the marks are dropped. -/
  dropped : ∀ name entry, (update (after history) students now).entries name = some entry →
    (currentRun history name = [] ∨
      ∀ earlier ∈ currentRun history name, rankOf earlier < rankOf (levelIn students name)) →
    entry.seenAt = none ∧ entry.snoozedUntil = none
  /-- Otherwise they stay. -/
  kept : ∀ name entry, (update (after history) students now).entries name = some entry →
    (∃ earlier ∈ currentRun history name, rankOf (levelIn students name) ≤ rankOf earlier) →
    ∃ before, after history name = some before ∧ entry.seenAt = before.seenAt ∧
      entry.snoozedUntil = before.snoozedUntil

end Attention

end Hermione
