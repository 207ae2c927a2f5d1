import Hermione.Framing
import Hermione.OpenFile

/-!
# Reading server-sent events

The assistant's answer reaches the editor as a body of server-sent events, in chunks
cut anywhere.  Each chunk is decoded and put into a buffer, and the lines that are
complete are taken off it: a name is kept, data is collected, and a blank line delivers
the event.
-/

namespace Hermione

namespace Sse

open Utf16 (LINE_FEED)

def CARRIAGE_RETURN : UInt16 := 0x0D

def SPACE : UInt16 := 0x20

def COLON : UInt16 := 0x3A

/-- A streaming `TextDecoder`. -/
structure TextDecoder where
  State : Type
  start : State
  /-- `decode(value, { stream: true })` -/
  decode : State → List UInt8 → JsString × State
  /-- `decode()`, at the end of the stream. -/
  flush : State → JsString

/-- It decodes two chunks as it decodes them in one. -/
structure TextDecoder.Streams (decoder : TextDecoder) : Prop where
  nil : ∀ state, decoder.decode state [] = ([], state)
  append : ∀ state front back, decoder.decode state (front ++ back) =
    ((decoder.decode state front).1 ++ (decoder.decode (decoder.decode state front).2 back).1,
      (decoder.decode (decoder.decode state front).2 back).2)

structure SseEvent where
  /-- The `event:` name, `message` when none was given. -/
  event : JsString
  /-- The `data:` lines, joined with newlines. -/
  data : JsString
  deriving DecidableEq

/-- The event that is open. -/
structure Open where
  event : JsString
  data : List JsString
  deriving DecidableEq

def Open.empty : Open :=
  { event := js "message", data := [] }

/-- The open event, if it has data, and none is open any more. -/
def pending (state : Open) : Option SseEvent × Open :=
  (if state.data = [] then none
    else some { event := state.event, data := [LINE_FEED].intercalate state.data },
    .empty)

/-- `raw.replace(/\r$/, '')` -/
def withoutReturn (raw : JsString) : JsString :=
  if raw.getLast? = some CARRIAGE_RETURN then raw.dropLast else raw

/-- What a line says: its field and the value, up to the first colon and after it. -/
def fieldOf (text : JsString) : JsString × JsString :=
  let value := (text.dropWhile (· ≠ COLON)).drop 1
  (text.takeWhile (· ≠ COLON), if value.head? = some SPACE then value.drop 1 else value)

/-- Read one line; a blank one delivers the open event. -/
def line (state : Open) (raw : JsString) : Option SseEvent × Open :=
  let text := withoutReturn raw
  if text = [] then pending state
  else if text.head? = some COLON then (none, state)
  else
    let (field, value) := fieldOf text
    if field = js "event" then (none, { state with event := value })
    else if field = js "data" then (none, { state with data := state.data ++ [value] })
    else (none, state)

/-- A line is read, and its event, if any, is yielded. -/
def yieldLine (reading : Open × List SseEvent) (raw : JsString) : Open × List SseEvent :=
  let (out, state) := line reading.1 raw
  (state, reading.2 ++ out.toList)

/-- The loop over the chunks, between two of them. -/
structure Reading (decoder : TextDecoder) where
  decoding : decoder.State
  buffer : JsString
  state : Open
  yielded : List SseEvent

section Reader

variable (decoder : TextDecoder)

def Reading.begin : Reading decoder :=
  { decoding := decoder.start, buffer := [], state := .empty, yielded := [] }

variable {decoder}

/-- What is left of the buffer has no line feed. -/
def readChunk (reading : Reading decoder) (value : List UInt8) : Reading decoder :=
  let (text, decoding) := decoder.decode reading.decoding value
  let (lines, buffer) := Framing.takeFrames (· == LINE_FEED) (reading.buffer ++ text)
  let (state, yielded) := lines.foldl yieldLine (reading.state, reading.yielded)
  { decoding, buffer, state, yielded }

/-- The stream has ended: what is left is one more line, and the open event is yielded. -/
def finish (reading : Reading decoder) : List SseEvent :=
  let buffer := reading.buffer ++ decoder.flush reading.decoding
  let state := if buffer = [] then reading.state else (line reading.state buffer).2
  reading.yielded ++ (pending state).1.toList

variable (decoder)

/-- The events of a body that arrives in these chunks. -/
def sseEvents (chunks : List (List UInt8)) : List SseEvent :=
  finish (chunks.foldl readChunk (Reading.begin decoder))

end Reader

/-! ### The text of a body -/

variable (decoder : TextDecoder)

/-- All that the decoder makes of some chunks, and how it stands after them. -/
def decodeAll (state : decoder.State) : List (List UInt8) → JsString × decoder.State
  | [] => ([], state)
  | chunk :: chunks =>
      let (text, state) := decoder.decode state chunk
      let (more, state) := decodeAll state chunks
      (text ++ more, state)

/-- The text of a body. -/
def textOf (chunks : List (List UInt8)) : JsString :=
  let (text, state) := decodeAll decoder decoder.start chunks
  text ++ decoder.flush state

variable {decoder}

theorem decodeAll_eq (streams : decoder.Streams) (state : decoder.State)
    (chunks : List (List UInt8)) :
    decodeAll decoder state chunks = decoder.decode state chunks.flatten := by
  induction chunks generalizing state with
  | nil => exact (streams.nil state).symm
  | cons chunk chunks ih =>
      rw [List.flatten_cons, streams.append, ← ih]
      rfl

/-- The reading, as far as it is a buffer and what the lines have made. -/
def Reading.fed (reading : Reading decoder) : JsString × Open × List SseEvent :=
  (reading.buffer, reading.state, reading.yielded)

/-- What is read of some chunks is read of the text they make. -/
theorem fed_foldl_readChunk (chunks : List (List UInt8)) (reading : Reading decoder)
    (partly : Framing.takeFrames (· == LINE_FEED) reading.buffer = ([], reading.buffer)) :
    (chunks.foldl readChunk reading).fed =
        Framing.feed (· == LINE_FEED) yieldLine reading.fed
          (decodeAll decoder reading.decoding chunks).1 ∧
      (chunks.foldl readChunk reading).decoding =
        (decodeAll decoder reading.decoding chunks).2 := by
  induction chunks generalizing reading with
  | nil => exact ⟨(Framing.feed_nil _ partly).symm, rfl⟩
  | cons chunk chunks ih =>
      have here : (readChunk reading chunk).fed =
          Framing.feed (· == LINE_FEED) yieldLine reading.fed
            (decoder.decode reading.decoding chunk).1 := rfl
      obtain ⟨fed, decoding⟩ := ih (readChunk reading chunk) (Framing.takeFrames_rest _)
      rw [List.foldl_cons, fed, decoding, here, ← Framing.feed_append]
      exact ⟨rfl, rfl⟩

end Sse

end Hermione
