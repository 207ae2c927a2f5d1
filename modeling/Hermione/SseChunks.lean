import Hermione.SseReader

/-!
# Events do not depend on the chunks

The decoder keeps the bytes of a character that is not complete, and the buffer keeps
the line that is not, with a carriage return that may belong to its end.  So a body's
events are those of its bytes, however these arrive.
-/

namespace Hermione

namespace Sse

/-! ### Decoding byte by byte -/

section Bytewise

variable {State : Type} (step : State → UInt8 → JsString × State)

/-- What the bytes decode to, and how the decoder stands after them. -/
def decodeBytes (state : State) : List UInt8 → JsString × State
  | [] => ([], state)
  | byte :: bytes =>
      let (text, state) := step state byte
      let (more, state) := decodeBytes state bytes
      (text ++ more, state)

theorem decodeBytes_append (state : State) (front back : List UInt8) :
    decodeBytes step state (front ++ back) =
      ((decodeBytes step state front).1 ++
          (decodeBytes step (decodeBytes step state front).2 back).1,
        (decodeBytes step (decodeBytes step state front).2 back).2) := by
  induction front generalizing state with
  | nil => rfl
  | cons byte front ih =>
      rw [List.cons_append, decodeBytes, decodeBytes]
      dsimp only
      rw [ih, List.append_assoc]

/-- A decoder that reads byte by byte. -/
def bytewise (start : State) (flush : State → JsString) : TextDecoder where
  State := State
  start := start
  decode := decodeBytes step
  flush := flush

theorem bytewise_streams (start : State) (flush : State → JsString) :
    (bytewise step start flush).Streams where
  nil _ := rfl
  append := decodeBytes_append step

end Bytewise

/-- How much of a character has been read. -/
structure Utf8State where
  /-- A character has been decoded: a mark at the very start of a body is left out. -/
  started : Bool
  /-- How many bytes are still to come. -/
  needed : Nat
  code : Nat
  /-- The bounds of the next byte. -/
  lower : UInt8
  upper : UInt8
  deriving DecidableEq

namespace Utf8State

/-- Between two characters. -/
def between (started : Bool) : Utf8State :=
  { started, needed := 0, code := 0, lower := 0x80, upper := 0xBF }

/-- A character is decoded. -/
def emit (started : Bool) (code : Nat) : JsString × Utf8State :=
  (if started = false ∧ code = 0xFEFF then [] else Utf16.encodeChar (Char.ofNat code),
    between true)

/-- The first byte of a character. -/
def lead (started : Bool) (byte : UInt8) : JsString × Utf8State :=
  if byte < 0x80 then emit started byte.toNat
  else if 0xC2 ≤ byte ∧ byte ≤ 0xDF then
    ([], { between started with needed := 1, code := byte.toNat % 0x20 })
  else if 0xE0 ≤ byte ∧ byte ≤ 0xEF then
    ([], { started, needed := 2, code := byte.toNat % 0x10
           lower := if byte = 0xE0 then 0xA0 else 0x80
           upper := if byte = 0xED then 0x9F else 0xBF })
  else if 0xF0 ≤ byte ∧ byte ≤ 0xF4 then
    ([], { started, needed := 3, code := byte.toNat % 0x8
           lower := if byte = 0xF0 then 0x90 else 0x80
           upper := if byte = 0xF4 then 0x8F else 0xBF })
  else emit started 0xFFFD

/-- One byte: a byte that does not go on with its character begins another. -/
def step (state : Utf8State) (byte : UInt8) : JsString × Utf8State :=
  if state.needed = 0 then lead state.started byte
  else if state.lower ≤ byte ∧ byte ≤ state.upper then
    let code := state.code * 0x40 + byte.toNat % 0x40
    if state.needed = 1 then emit state.started code
    else ([], { between state.started with needed := state.needed - 1, code })
  else
    let (text, next) := emit state.started 0xFFFD
    let (more, next) := lead next.started byte
    (text ++ more, next)

/-- A character that is cut off is replaced. -/
def flush (state : Utf8State) : JsString :=
  if state.needed = 0 then [] else (emit state.started 0xFFFD).1

end Utf8State

/-- `new TextDecoder()` -/
def utf8Decoder : TextDecoder :=
  bytewise Utf8State.step (Utf8State.between false) Utf8State.flush

/-! ### Any two ways of cutting -/

variable {decoder : TextDecoder}

theorem finish_congr {one other : Reading decoder} (fed : one.fed = other.fed)
    (decoding : one.decoding = other.decoding) : finish one = finish other := by
  cases one
  cases other
  cases fed
  cases decoding
  rfl

/-- A body cut into chunks in two ways yields the same events. -/
theorem sseEvents_cuts (streams : decoder.Streams) {one other : List (List UInt8)}
    (same : one.flatten = other.flatten) : sseEvents decoder one = sseEvents decoder other := by
  have whole (chunks : List (List UInt8)) :=
    fed_foldl_readChunk chunks (Reading.begin decoder) rfl
  apply finish_congr
  · rw [(whole one).1, (whole other).1, decodeAll_eq streams, decodeAll_eq streams, same]
  · rw [(whole one).2, (whole other).2, decodeAll_eq streams, decodeAll_eq streams, same]

/-- Cut within `é`, and between the carriage return and the line feed. -/
theorem sseEvents_cuts_within :
    sseEvents utf8Decoder
        [[0x64, 0x61, 0x74, 0x61, 0x3A, 0xC3], [0xA9, 0x0D], [0x0A, 0x0D, 0x0A]] =
      sseEvents utf8Decoder
        [[0x64, 0x61, 0x74, 0x61, 0x3A, 0xC3, 0xA9, 0x0D, 0x0A, 0x0D, 0x0A]] :=
  sseEvents_cuts (bytewise_streams _ _ _) (by decide)

example : sseEvents utf8Decoder
    [[0x64, 0x61, 0x74, 0x61, 0x3A, 0xC3], [0xA9, 0x0D], [0x0A, 0x0D, 0x0A]] =
      [{ event := js "message", data := [0xE9] }] := by
  decide

end Sse

end Hermione
