import Mathlib.Data.List.Pairwise
import Hermione.Exercises
import Hermione.Text

/-!
# What a student has said to the assistant

Every question and every reply is a row of its own, numbered as it is written, and the
student's panel asks for those of the student's conversation.  The query that answers
orders the rows by their numbers, oldest first, and stops at a limit.
-/

namespace Hermione

namespace Conversations

/-- Max history turns returned to the chat panel. -/
def HISTORY_LIMIT : Nat :=
  100

/-- A row of `assistant_conversations`. -/
structure Conversation where
  id : Uuid
  courseId : Uuid
  student : Str
  deriving DecidableEq

/-- A row of `assistant_messages`. -/
structure MessageRow where
  id : Nat
  conversationId : Uuid
  /-- "student" or "assistant". -/
  role : Str
  body : Str
  /-- In milliseconds. -/
  createdAt : Int
  deriving DecidableEq

structure Tables where
  conversations : List Conversation
  /-- In the order in which they were written. -/
  messages : List MessageRow
  /-- The number that the next row of `assistant_messages` gets. -/
  sequence : Nat

def Tables.empty : Tables :=
  { conversations := [], messages := [], sequence := 1 }

def findConversation (tables : Tables) (courseId : Uuid) (student : Str) :
    Option Conversation :=
  tables.conversations.find? fun row => row.courseId = courseId ∧ row.student = student

/-- Adds a conversation, unless its keys are taken. -/
def insertConversation (tables : Tables) (row : Conversation) (reply : Reply) : Tables :=
  if tables.conversations.any fun other =>
      other.id = row.id ∨ (other.courseId = row.courseId ∧ other.student = row.student) then
    tables
  else
    { tables with
      conversations :=
        (reply.carry tables.conversations (tables.conversations ++ [row])).1 }

/-- Adds a turn.  Its number is used up, also where the row is not written. -/
def insertMessage (tables : Tables) (conversationId : Uuid) (role body : Str) (now : Int)
    (reply : Reply) : Tables :=
  { tables with
    messages :=
      (reply.carry tables.messages (tables.messages ++
        [{ id := tables.sequence, conversationId, role, body, createdAt := now }])).1
    sequence := tables.sequence + 1 }

/-- A statement that writes to the tables. -/
inductive Statement where
  | insertConversation (row : Conversation) (reply : Reply)
  | insertMessage (conversationId : Uuid) (role body : Str) (now : Int) (reply : Reply)

def Statement.step (tables : Tables) : Statement → Tables
  | .insertConversation row reply => Conversations.insertConversation tables row reply
  | .insertMessage conversationId role body now reply =>
      Conversations.insertMessage tables conversationId role body now reply

/-- The tables after some statements. -/
def run (statements : List Statement) : Tables :=
  statements.foldl Statement.step .empty

/-! ### The endpoint -/

structure HistoryMessage where
  role : Str
  body : Str
  createdAtUnixMs : Int
  deriving DecidableEq

def HistoryMessage.from (row : MessageRow) : HistoryMessage :=
  { role := row.role, body := row.body, createdAtUnixMs := row.createdAt }

/-- A verified identity wins over the self-asserted one. -/
def assertedStudent (verified claimed : Option Str) : Option Str :=
  nonBlank (verified <|> claimed)

/-- The rows that the query answers with. -/
def historyRows (tables : Tables) (conversationId : Uuid) : List MessageRow :=
  ((tables.messages.filter fun row => row.conversationId = conversationId).mergeSort
    fun first second => first.id ≤ second.id).take HISTORY_LIMIT

/-- The turns that a student is answered with in a course. -/
def answeredRows (tables : Tables) (courseId : Uuid) (verified claimed : Option Str) :
    List MessageRow :=
  match assertedStudent verified claimed with
  | none => []
  | some student =>
      match findConversation tables courseId student with
      | none => []
      | some conversation => historyRows tables conversation.id

/-- `GET /api/assistant/history?student=…`: this student's prior turns. -/
def history (tables : Tables) (courseId : Uuid) (verified claimed : Option Str) :
    List HistoryMessage :=
  (answeredRows tables courseId verified claimed).map .from

/-! ### What the tables keep -/

/-- Two conversations are not of one student in one course. -/
def Apart (first second : Conversation) : Prop :=
  ¬ (first.courseId = second.courseId ∧ first.student = second.student)

instance : Std.Symm Apart where
  symm _ _ apart same := apart ⟨same.1.symm, same.2.symm⟩

/-- Turns are numbered as they are written, and a student has one conversation in a
course. -/
structure Sound (tables : Tables) : Prop where
  numbered : tables.messages.Pairwise fun first second => first.id < second.id
  fresh : ∀ row ∈ tables.messages, row.id < tables.sequence
  single : tables.conversations.Pairwise Apart

variable {tables : Tables}

theorem Sound.insertConversation (sound : Sound tables) (row : Conversation) (reply : Reply) :
    Sound (insertConversation tables row reply) := by
  unfold Conversations.insertConversation
  split
  · exact sound
  · next free =>
      refine ⟨sound.numbered, sound.fresh, ?_⟩
      dsimp only
      rcases reply.carry_cases tables.conversations (tables.conversations ++ [row]) with
        same | added
      · rw [same]
        exact sound.single
      · rw [added]
        refine List.pairwise_append.mpr ⟨sound.single, List.pairwise_singleton _ _, ?_⟩
        intro other member new here
        rw [List.mem_singleton.mp here]
        intro taken
        exact free (List.any_eq_true.mpr ⟨other, member, decide_eq_true (.inr taken)⟩)

theorem Sound.insertMessage (sound : Sound tables) (conversationId : Uuid) (role body : Str)
    (now : Int) (reply : Reply) :
    Sound (insertMessage tables conversationId role body now reply) := by
  unfold Conversations.insertMessage
  generalize added : (⟨tables.sequence, conversationId, role, body, now⟩ : MessageRow) = row
  have number : row.id = tables.sequence := by rw [← added]
  rcases reply.carry_cases tables.messages (tables.messages ++ [row]) with same | appended
  · refine ⟨?_, ?_, sound.single⟩
    · dsimp only
      rw [same]
      exact sound.numbered
    · dsimp only
      rw [same]
      exact fun row member => (sound.fresh row member).trans (Nat.lt_succ_self _)
  · refine ⟨?_, ?_, sound.single⟩
    · dsimp only
      rw [appended]
      refine List.pairwise_append.mpr ⟨sound.numbered, List.pairwise_singleton _ _, ?_⟩
      intro other member new here
      rw [List.mem_singleton.mp here, number]
      exact sound.fresh other member
    · dsimp only
      rw [appended]
      intro other member
      rcases List.mem_append.mp member with before | here
      · exact (sound.fresh other before).trans (Nat.lt_succ_self _)
      · rw [List.mem_singleton.mp here, number]
        exact Nat.lt_succ_self _

theorem Sound.step (sound : Sound tables) (statement : Statement) :
    Sound (statement.step tables) := by
  cases statement with
  | insertConversation row reply => exact sound.insertConversation row reply
  | insertMessage conversationId role body now reply =>
      exact sound.insertMessage conversationId role body now reply

theorem sound_run (statements : List Statement) : Sound (run statements) := by
  have loop (statements : List Statement) {tables : Tables} (sound : Sound tables) :
      Sound (statements.foldl Statement.step tables) := by
    induction statements generalizing tables with
    | nil => exact sound
    | cons statement statements ih => exact ih (sound.step statement)
  exact loop statements ⟨.nil, fun _ none => (by cases none), .nil⟩

/-! ### The latest turns -/

/-- The turns of a student's conversation in a course, in the order they were written. -/
def turnsOf (tables : Tables) (courseId : Uuid) (student : Str) : List MessageRow :=
  tables.messages.filter fun row => tables.conversations.any fun conversation =>
    conversation.courseId = courseId ∧ conversation.student = student ∧
      conversation.id = row.conversationId

/-- The most recent of some turns, up to the limit. -/
def latest (turns : List MessageRow) : List MessageRow :=
  turns.drop (turns.length - HISTORY_LIMIT)

/-- The student is shown the most recent turns, and so the newest of all. -/
def ShowsLatest (tables : Tables) (courseId : Uuid) (verified claimed : Option Str)
    (student : Str) : Prop :=
  answeredRows tables courseId verified claimed = latest (turnsOf tables courseId student) ∧
    (answeredRows tables courseId verified claimed).getLast? =
      (turnsOf tables courseId student).getLast?

section Turns

variable (sound : Sound tables) {courseId : Uuid}

include sound

theorem turnsOf_eq {student : Str} {conversation : Conversation}
    (found : findConversation tables courseId student = some conversation) :
    turnsOf tables courseId student =
      tables.messages.filter fun row => row.conversationId = conversation.id := by
  have member := List.mem_of_find?_eq_some found
  have own := List.find?_some found
  obtain ⟨of, named⟩ := of_decide_eq_true own
  apply List.filter_congr
  intro row _
  rw [Bool.eq_iff_iff, List.any_eq_true, decide_eq_true_eq]
  constructor
  · rintro ⟨other, listed, own⟩
    obtain ⟨of', named', id⟩ := of_decide_eq_true own
    by_cases same : other = conversation
    · rw [← id, same]
    · have apart := sound.single.forall listed member same
      exact absurd ⟨of'.trans of.symm, named'.trans named.symm⟩ apart
  · intro id
    exact ⟨conversation, member, decide_eq_true ⟨of, named, id.symm⟩⟩

theorem historyRows_eq (conversationId : Uuid) :
    historyRows tables conversationId =
      (tables.messages.filter fun row => row.conversationId = conversationId).take
        HISTORY_LIMIT := by
  have numbered := sound.numbered.filter fun row => row.conversationId = conversationId
  rw [historyRows, List.mergeSort_of_pairwise (numbered.imp fun less => decide_eq_true less.le)]

/-- The answer is the first turns, up to the limit. -/
theorem answeredRows_eq {verified claimed : Option Str} {student : Str}
    (asserted : assertedStudent verified claimed = some student) :
    answeredRows tables courseId verified claimed =
      (turnsOf tables courseId student).take HISTORY_LIMIT := by
  unfold answeredRows
  rw [asserted]
  dsimp only
  cases found : findConversation tables courseId student with
  | none =>
      have nobody : turnsOf tables courseId student = [] := by
        apply List.filter_eq_nil_iff.mpr
        intro row _ own
        obtain ⟨conversation, member, own⟩ := List.any_eq_true.mp own
        obtain ⟨of, named, -⟩ := of_decide_eq_true own
        have other := List.find?_eq_none.mp found conversation member
        exact other (decide_eq_true ⟨of, named⟩)
      rw [nobody]
      rfl
  | some conversation =>
      dsimp only
      rw [turnsOf_eq sound found, historyRows_eq sound]

end Turns

theorem take_eq_latest_iff {turns : List MessageRow}
    (numbered : turns.Pairwise fun first second => first.id < second.id) :
    turns.take HISTORY_LIMIT = latest turns ↔ turns.length ≤ HISTORY_LIMIT := by
  constructor
  · intro same
    by_contra more
    rw [not_le] at more
    have limit : 0 < HISTORY_LIMIT := by decide
    have some : 0 < turns.length := limit.trans more
    have first := congrArg (·[0]?) same
    rw [latest, List.getElem?_take_of_lt limit, List.getElem?_drop, Nat.add_zero,
      List.getElem?_eq_getElem some, List.getElem?_eq_getElem (by omega)] at first
    have less := List.pairwise_iff_getElem.mp numbered 0 (turns.length - HISTORY_LIMIT) some
      (by omega) (by omega)
    rw [Option.some.inj first] at less
    exact absurd less (lt_irrefl _)
  · intro few
    rw [latest, List.take_of_length_le few, Nat.sub_eq_zero_of_le few, List.drop_zero]

/-- After every sequence of writes, the student is shown the most recent turns exactly if
there are no more than the limit. -/
theorem showsLatest_iff (statements : List Statement) (courseId : Uuid)
    {verified claimed : Option Str} {student : Str}
    (asserted : assertedStudent verified claimed = some student) :
    ShowsLatest (run statements) courseId verified claimed student ↔
      (turnsOf (run statements) courseId student).length ≤ HISTORY_LIMIT := by
  have sound := sound_run statements
  have numbered : (turnsOf (run statements) courseId student).Pairwise
      fun first second => first.id < second.id := sound.numbered.filter _
  rw [ShowsLatest, answeredRows_eq sound asserted, take_eq_latest_iff numbered]
  constructor
  · exact And.left
  · intro few
    exact ⟨few, by rw [List.take_of_length_le few]⟩

/-- A conversation and its first turns. -/
def chat (questions : Nat) : List Statement :=
  .insertConversation ⟨7, 1, "alice".toList⟩ .done ::
    (List.range questions).map fun number =>
      .insertMessage 7 "student".toList "why?".toList number .done

theorem showsLatest_iff_two :
    ShowsLatest (run (chat 2)) 1 none (some " alice".toList) "alice".toList :=
  (showsLatest_iff (chat 2) 1 rfl).mpr (by decide +kernel)

/-- The newest of a hundred and one turns is not shown. -/
theorem not_showsLatest_hundred_one :
    ¬ ShowsLatest (run (chat 101)) 1 none (some "alice".toList) "alice".toList := by
  rintro ⟨-, newest⟩
  rw [answeredRows_eq (sound_run _) rfl] at newest
  revert newest
  decide +kernel

end Conversations

end Hermione
