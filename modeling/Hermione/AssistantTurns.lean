import Hermione.Framing
import Hermione.JsonText
import Hermione.Utf8Chunks

/-!
# A turn of the assistant, read as it streams

The reply arrives in pieces.  Each is read as text and put behind what is left of the
ones before it, every line that this completes is taken off, and the JSON that a
`data:` line holds is acted on.  How the pieces are cut only shows in how they are
read: what is taken off is the lines of everything read so far.
-/

namespace Hermione

open Str (IsUtf8 asBytes fromUtf8Lossy)

namespace Assistant

/-- `Value::as_str` -/
def asStr : Json Str → Option Str
  | .string text => some text
  | _ => none

/-- `Value::as_array` -/
def asArray : Json Str → Option (List (Json Str))
  | .array elements => some elements
  | _ => none

/-- `value.get(key).and_then(|v| v.as_str())` -/
def textAt (key : String) (value : Json Str) : Option Str :=
  (value.get key.toList).bind asStr

/-- What a turn sends to the client as it goes. -/
inductive TurnEvent where
  | message (text : Str)
  | status (text : Str)
  deriving DecidableEq, Repr

/-- A turn so far. -/
structure Turn where
  reply : Str
  /-- The events that have reached the client. -/
  sent : List TurnEvent
  /-- How many have been sent, whether or not they have. -/
  attempts : Nat
  deriving DecidableEq, Repr

/-- What a turn rests on. -/
structure Upstream where
  /-- `serde_json::from_str` -/
  fromStr : Str → Option (Json Str)
  /-- Whether the client is still there for the event of this number. -/
  receives : Nat → Bool

variable (upstream : Upstream)

/-- `tx.send`, and whether it succeeds. -/
def send (turn : Turn) (event : TurnEvent) : Turn × Bool :=
  if upstream.receives turn.attempts then
    ({ turn with sent := turn.sent ++ [event], attempts := turn.attempts + 1 }, true)
  else ({ turn with attempts := turn.attempts + 1 }, false)

/-- The text blocks of a message. -/
def messageOf (value : Json Str) : Str :=
  (((value.get "content".toList).bind asArray).getD []).flatMap fun block =>
    if textAt "type" block = some "text".toList then (textAt "text" block).getD [] else []

/-- Act on one event of the stream; the second answer is whether it ends the turn. -/
def act (turn : Turn) (value : Json Str) : Turn × Bool :=
  let kind := (textAt "type" value).getD []
  if kind = "agent.message".toList then
    let message := messageOf value
    if message = [] then (turn, false)
    else
      let (turn, received) :=
        send upstream { turn with reply := turn.reply ++ message } (.message message)
      (turn, !received)
  else if kind = "agent.thinking".toList then
    ((send upstream turn (.status "thinking…".toList)).1, false)
  else if kind = "agent.tool_use".toList then
    let name := (textAt "name" value).getD "a tool".toList
    ((send upstream turn (.status ("running ".toList ++ name ++ "…".toList))).1, false)
  else if kind = "agent.mcp_tool_use".toList then
    ((send upstream turn (.status "using a connected tool…".toList)).1, false)
  else if kind = "session.status_idle".toList then
    let reason := ((value.get "stop_reason".toList).bind (textAt "type")).getD
      "end_turn".toList
    (turn, reason ≠ "requires_action".toList)
  else if kind = "session.status_terminated".toList then (turn, true)
  else (turn, false)

/-- Read one line; only a `data:` line with JSON in it is acted on. -/
def readLine (turn : Turn) (line : Str) : Turn × Bool :=
  match Str.stripPrefix "data:".toList (line.rdropWhile Str.isWhitespace) with
  | none => (turn, false)
  | some data =>
      if Str.trim data = [] then (turn, false)
      else
        match upstream.fromStr (Str.trim data) with
        | none => (turn, false)
        | some value => act upstream turn value

/-- Read lines until one ends the turn. -/
def readLines (turn : Turn) : List Str → Turn × Bool
  | [] => (turn, false)
  | line :: lines =>
      match readLine upstream turn line with
      | (turn, true) => (turn, true)
      | (turn, false) => readLines turn lines

/-- Take the complete lines off a buffer. -/
def takeLines : Str → List Str × Str
  | [] => ([], [])
  | char :: buf =>
      let (lines, rest) := takeLines buf
      if char = '\n' then ([] :: lines, rest)
      else
        match lines with
        | [] => ([], char :: rest)
        | line :: lines => ((char :: line) :: lines, rest)

/-- The loop over the chunks, between two of them. -/
structure Reading where
  buf : Str
  turn : Turn
  ended : Bool

def readChunk (reading : Reading) (chunk : List UInt8) : Reading :=
  if reading.ended then reading
  else
    let (lines, buf) := takeLines (reading.buf ++ fromUtf8Lossy chunk)
    let (turn, ended) := readLines upstream reading.turn lines
    { buf, turn, ended }

/-- The turn of a stream that ends after these chunks. -/
def runStreamingTurn (chunks : List (List UInt8)) : Turn :=
  (chunks.foldl (readChunk upstream) ⟨[], ⟨[], [], 0⟩, false⟩).turn

/-! ### Lines of a growing text -/

/-- Lines are what a newline ends. -/
theorem takeLines_eq (buf : Str) : takeLines buf = Framing.takeFrames (· == '\n') buf := by
  induction buf with
  | nil => rfl
  | cons char buf ih =>
      rw [takeLines, Framing.takeFrames, ih]
      simp only [beq_iff_eq]
      cases (Framing.takeFrames (· == '\n') buf).1 <;> rfl

theorem takeLines_append (front back : Str) :
    takeLines (front ++ back) =
      ((takeLines front).1 ++ (takeLines ((takeLines front).2 ++ back)).1,
        (takeLines ((takeLines front).2 ++ back)).2) := by
  simp only [takeLines_eq]
  exact Framing.takeFrames_append front back

theorem takeLines_rest (buf : Str) : takeLines (takeLines buf).2 = ([], (takeLines buf).2) := by
  simp only [takeLines_eq]
  exact Framing.takeFrames_rest buf

/-- The turn of the lines of a text, and whether one of them ends it. -/
def readText (text : Str) : Turn × Bool :=
  readLines upstream ⟨[], [], 0⟩ (takeLines text).1

/-- A text up to the end of the line that ends the turn, or all of it. -/
def attended (text : Str) : Str :=
  (text.inits.find? fun front => (readText upstream front).2).getD text

/-- What the chunks of a stream bring of that part of its text. -/
def attendedPieces (text : Str) (chunks : List (List UInt8)) : List (List UInt8) :=
  Str.piecesBefore (asBytes (attended upstream text)).length chunks

variable {upstream}

theorem readLines_append (turn : Turn) (front back : List Str) :
    readLines upstream turn (front ++ back) =
      if (readLines upstream turn front).2 then readLines upstream turn front
      else readLines upstream (readLines upstream turn front).1 back := by
  induction front generalizing turn with
  | nil => rfl
  | cons line front ih =>
      rw [List.cons_append, readLines, readLines]
      rcases readLine upstream turn line with ⟨next, _ | _⟩
      · exact ih next
      · rfl

theorem foldl_ended (chunks : List (List UInt8)) {reading : Reading}
    (ended : reading.ended = true) :
    chunks.foldl (readChunk upstream) reading = reading := by
  induction chunks with
  | nil => rfl
  | cons chunk chunks ih => rw [List.foldl_cons, readChunk, if_pos ended, ih]

theorem readChunk_eq (buf : Str) (turn : Turn) (chunk : List UInt8) :
    readChunk upstream ⟨buf, turn, false⟩ chunk =
      ⟨(takeLines (buf ++ fromUtf8Lossy chunk)).2,
        (readLines upstream turn (takeLines (buf ++ fromUtf8Lossy chunk)).1).1,
        (readLines upstream turn (takeLines (buf ++ fromUtf8Lossy chunk)).1).2⟩ :=
  rfl

/-- The loop, standing before some chunks, acts on the lines of all that is read of
them. -/
theorem foldl_readChunk (chunks : List (List UInt8)) {buf : Str} (turn : Turn)
    (partly : takeLines buf = ([], buf)) :
    (chunks.foldl (readChunk upstream) ⟨buf, turn, false⟩).turn =
      (readLines upstream turn (takeLines (buf ++ chunks.flatMap fromUtf8Lossy)).1).1 := by
  induction chunks generalizing buf turn with
  | nil =>
      rw [List.flatMap_nil, List.append_nil, partly]
      rfl
  | cons chunk chunks ih =>
      rw [List.foldl_cons, readChunk_eq, List.flatMap_cons, ← List.append_assoc,
        takeLines_append (buf ++ fromUtf8Lossy chunk), readLines_append]
      by_cases ended : (readLines upstream turn (takeLines (buf ++ fromUtf8Lossy chunk)).1).2 = true
      · rw [foldl_ended chunks ended, if_pos ended]
      · rw [if_neg ended]
        rw [Bool.not_eq_true] at ended
        rw [ended]
        exact ih _ (takeLines_rest _)

/-- A turn acts on the lines of all that is read of its chunks. -/
theorem runStreamingTurn_eq (chunks : List (List UInt8)) :
    runStreamingTurn upstream chunks = (readText upstream (chunks.flatMap fromUtf8Lossy)).1 :=
  foldl_readChunk chunks _ rfl

/-- Once a line has ended the turn, what comes after does not matter. -/
theorem readText_append {front : Str} (ended : (readText upstream front).2 = true) (back : Str) :
    readText upstream (front ++ back) = readText upstream front := by
  have closed : (readLines upstream ⟨[], [], 0⟩ (takeLines front).1).2 = true := ended
  rw [readText, takeLines_append, readLines_append, if_pos closed]
  rfl

/-- Either a line of the text ends the turn, and the text is attended to up to there, or
all of it is. -/
theorem attended_cases (upstream : Upstream) (text : Str) :
    (attended upstream text <+: text ∧ (readText upstream (attended upstream text)).2 = true) ∨
      attended upstream text = text := by
  rw [attended]
  cases found : text.inits.find? fun front => (readText upstream front).2 with
  | none => exact .inr rfl
  | some front =>
      have ended := List.find?_some found
      exact .inl ⟨(List.mem_inits _ _).mp (List.mem_of_find?_eq_some found), ended⟩

section Cuts

variable {text : Str} {chunks : List (List UInt8)}

/-- The pieces bring the bytes of what is attended to. -/
theorem flatten_attendedPieces (cut : chunks.flatten = asBytes text) :
    (attendedPieces upstream text chunks).flatten = asBytes (attended upstream text) := by
  rw [attendedPieces, Str.flatten_piecesBefore, cut]
  rcases attended_cases upstream text with ⟨⟨rest, split⟩, -⟩ | all
  · rw [← congrArg asBytes split, asBytes, asBytes, List.flatMap_append, List.take_left]
  · rw [all, List.take_length]

/-- Where no character is cut in what is attended to, the turn is that of the text. -/
theorem runStreamingTurn_eq_readText (cut : chunks.flatten = asBytes text)
    (whole : ∀ piece ∈ attendedPieces upstream text chunks, IsUtf8 piece) :
    runStreamingTurn upstream chunks = (readText upstream text).1 := by
  have read : (attendedPieces upstream text chunks).flatMap fromUtf8Lossy =
      attended upstream text :=
    (Str.flatMap_fromUtf8Lossy_eq_iff (flatten_attendedPieces cut)).mpr whole
  rw [runStreamingTurn_eq]
  rcases attended_cases upstream text with ⟨⟨rest, split⟩, ended⟩ | all
  · obtain ⟨more, onward⟩ := Str.flatMap_piecesBefore_prefix whole
    rw [← onward]
    change (readText upstream ((attendedPieces upstream text chunks).flatMap fromUtf8Lossy ++
      more)).1 = _
    rw [read, readText_append ended, ← readText_append ended rest, split]
  · rw [attendedPieces, all, ← cut, Str.piecesBefore_eq_self (Nat.le_refl _)] at read
    rw [read]

end Cuts

/-- A reply cut in two ways gives the same turn, where no border between two pieces lies
inside a character before the end of the line that ends the turn: where, that is, what is
attended to is read as it is. -/
theorem runStreamingTurn_cuts {text : Str} {one other : List (List UInt8)}
    (oneCut : one.flatten = asBytes text) (otherCut : other.flatten = asBytes text) :
    ((attendedPieces upstream text one).flatMap fromUtf8Lossy = attended upstream text ↔
        ∀ piece ∈ attendedPieces upstream text one, IsUtf8 piece) ∧
      ((attendedPieces upstream text other).flatMap fromUtf8Lossy = attended upstream text ↔
        ∀ piece ∈ attendedPieces upstream text other, IsUtf8 piece) ∧
      ((∀ piece ∈ attendedPieces upstream text one, IsUtf8 piece) →
        (∀ piece ∈ attendedPieces upstream text other, IsUtf8 piece) →
        runStreamingTurn upstream one = runStreamingTurn upstream other) := by
  refine ⟨Str.flatMap_fromUtf8Lossy_eq_iff (flatten_attendedPieces oneCut),
    Str.flatMap_fromUtf8Lossy_eq_iff (flatten_attendedPieces otherCut), ?_⟩
  intro oneWhole otherWhole
  rw [runStreamingTurn_eq_readText oneCut oneWhole,
    runStreamingTurn_eq_readText otherCut otherWhole]

/-- A crate that reads JSON, and a client that stays. -/
def attentive : Upstream :=
  { fromStr := Json.parse, receives := fun _ => true }

def helloReply : Str :=
  ("data: \x7b\"type\":\"agent.message\",\"content\":[\x7b\"type\":\"text\"," ++
    "\"text\":\"é\"\x7d]\x7d\n").toList

/-- A reply that ends, with two letters after the end. -/
def endedReply : Str :=
  helloReply ++ "data: \x7b\"type\":\"session.status_terminated\"\x7d\néé".toList

/-- Both letters are cut: one in the piece in which the turn ends, one after it. -/
theorem runStreamingTurn_cuts_hello :
    runStreamingTurn attentive [asBytes endedReply] =
      runStreamingTurn attentive [(asBytes endedReply).take 9,
        ((asBytes endedReply).drop 9).take 106, [0xA9, 0xC3], [0xA9]] :=
  (@runStreamingTurn_cuts attentive endedReply _ _ (by decide +kernel)
    (by decide +kernel)).2.2 (by decide +kernel) (by decide +kernel)

/-- The letter is cut in two, and the client is sent something else. -/
theorem not_runStreamingTurn_cuts :
    ∃ upstream text one other, one.flatten = asBytes text ∧ other.flatten = asBytes text ∧
      runStreamingTurn upstream one ≠ runStreamingTurn upstream other := by
  have whole : runStreamingTurn attentive [asBytes helloReply] =
      ⟨"é".toList, [.message "é".toList], 1⟩ := by decide +kernel
  have cut : runStreamingTurn attentive
      [(asBytes helloReply).take 65, (asBytes helloReply).drop 65] =
        ⟨[Str.replacement, Str.replacement],
          [.message [Str.replacement, Str.replacement]], 1⟩ := by decide +kernel
  refine ⟨attentive, helloReply, [asBytes helloReply],
    [(asBytes helloReply).take 65, (asBytes helloReply).drop 65], by simp, by simp, ?_⟩
  rw [whole, cut]
  decide

end Assistant

end Hermione
