import Hermione.SseChunks
import Mathlib.Data.List.TakeWhile

/-!
# The grammar of server-sent events

A body is lines, and the lines between two blank ones make an event.  The reader yields
the events of the grammar, but for the one that a carriage return at the very end
completes: there the event that the line completes is not looked at.
-/

namespace Hermione

namespace Sse

open Utf16 (LINE_FEED)

/-! ### The grammar -/

/-- The lines of a body: each ends at a line feed, with a carriage return before it or
not, and the end of the body ends the last. -/
def linesOf (text : JsString) : List JsString :=
  (text.splitOnP (· == LINE_FEED)).map withoutReturn

/-- The lines between blank ones. -/
def blocks (lines : List JsString) : List (List JsString) :=
  lines.splitOnP List.isEmpty

/-- The value that a line has for a field, without the space that may come before it. -/
def valueOf (field text : JsString) : Option JsString :=
  if text = field then some []
  else if field ++ [COLON] <+: text then
    let value := text.drop (field.length + 1)
    some (if value.head? = some SPACE then value.drop 1 else value)
  else none

/-- The last name given and the data collected. -/
def openOf (block : List JsString) : Open where
  event := (block.filterMap (valueOf (js "event"))).getLast?.getD (js "message")
  data := block.filterMap (valueOf (js "data"))

/-- The event of a block, unless it has no data. -/
def eventOf (block : List JsString) : Option SseEvent :=
  if (openOf block).data = [] then none
  else some { event := (openOf block).event, data := [LINE_FEED].intercalate (openOf block).data }

/-- The events of a body: the last block is ended by the end of the body. -/
def grammar (text : JsString) : List SseEvent :=
  (blocks (linesOf text)).filterMap eventOf

/-! ### Fields -/

theorem fieldOf_split (text : JsString) (colonless : COLON ∉ text) : fieldOf text = (text, []) := by
  have all : ∀ unit ∈ text, decide (unit ≠ COLON) = true := by
    intro unit member
    exact decide_eq_true fun equal => colonless (equal ▸ member)
  unfold fieldOf
  rw [List.takeWhile_eq_self_iff.mpr all, List.dropWhile_eq_nil_iff.mpr all]
  rfl

theorem fieldOf_append {field : JsString} (colonless : COLON ∉ field) (value : JsString) :
    fieldOf (field ++ COLON :: value) =
      (field, if value.head? = some SPACE then value.drop 1 else value) := by
  have all : ∀ unit ∈ field, decide (unit ≠ COLON) = true := by
    intro unit member
    exact decide_eq_true fun equal => colonless (equal ▸ member)
  unfold fieldOf
  rw [List.takeWhile_append_of_pos all, List.dropWhile_append_of_pos all]
  simp

/-- The reader's field is the grammar's. -/
theorem valueOf_eq (field : JsString) (colonless : COLON ∉ field) (text : JsString) :
    valueOf field text = if (fieldOf text).1 = field then some (fieldOf text).2 else none := by
  by_cases mem : COLON ∈ text
  · obtain ⟨before, value, split, fresh⟩ := List.eq_append_cons_of_mem mem
    subst split
    have other : before ++ COLON :: value ≠ field := fun equal => colonless (equal ▸ mem)
    rw [fieldOf_append fresh, valueOf, if_neg other]
    by_cases equal : before = field
    · subst equal
      have here : before ++ [COLON] <+: before ++ COLON :: value := ⟨value, by simp⟩
      rw [if_pos here, if_pos rfl]
      simp
    · rw [if_neg equal, if_neg]
      rintro ⟨rest, same⟩
      have fields := congrArg (fun text => (fieldOf text).1) same
      rw [List.append_assoc, List.singleton_append] at fields
      rw [fieldOf_append colonless, fieldOf_append fresh] at fields
      exact equal fields.symm
  · rw [fieldOf_split text mem, valueOf]
    by_cases equal : text = field
    · rw [if_pos equal, if_pos equal]
    · rw [if_neg equal, if_neg equal, if_neg]
      rintro ⟨rest, rfl⟩
      exact mem (by simp)

/-! ### Lines and blocks -/

theorem pending_openOf (block : List JsString) :
    pending (openOf block) = (eventOf block, openOf []) :=
  rfl

theorem filterMap_singleton {α β : Type} (f : α → Option β) (value : α) :
    [value].filterMap f = (f value).toList := by
  cases found : f value with
  | none => exact List.filterMap_cons_none found
  | some image => exact List.filterMap_cons_some found

/-- What one more line does to an open block. -/
theorem openOf_concat (block : List JsString) (text : JsString) :
    openOf (block ++ [text]) =
      { event := (valueOf (js "event") text).getD (openOf block).event
        data := (openOf block).data ++ (valueOf (js "data") text).toList } := by
  unfold openOf
  rw [List.filterMap_append, List.filterMap_append, filterMap_singleton, filterMap_singleton]
  cases valueOf (js "event") text with
  | none => rw [Option.toList_none, List.append_nil, Option.getD_none]
  | some value => rw [Option.toList_some, List.getLast?_concat, Option.getD_some, Option.getD_some]

/-- A line is one more of the open block, or ends it. -/
theorem line_openOf (block : List JsString) (raw : JsString) :
    line (openOf block) raw =
      if withoutReturn raw = [] then (eventOf block, openOf [])
      else (none, openOf (block ++ [withoutReturn raw])) := by
  unfold line
  generalize withoutReturn raw = text
  dsimp only
  by_cases blank : text = []
  · rw [if_pos blank, if_pos blank, pending_openOf]
  · rw [if_neg blank, if_neg blank, openOf_concat, valueOf_eq (js "event") (by decide),
      valueOf_eq (js "data") (by decide)]
    by_cases comment : text.head? = some COLON
    · obtain ⟨rest, rfl⟩ := List.head?_eq_some_iff.mp comment
      have unnamed : (fieldOf (COLON :: rest)).1 = [] := rfl
      rw [if_pos comment, unnamed, if_neg (by decide), if_neg (by decide)]
      simp
    · have apart : js "event" ≠ js "data" := by decide
      rw [if_neg comment]
      by_cases event : (fieldOf text).1 = js "event"
      · simp [event, apart]
      · by_cases data : (fieldOf text).1 = js "data"
        · simp [data, apart.symm]
        · simp [event, data]

/-! ### Blocks as frames of lines -/

/-- A block is ended, and its event is delivered. -/
def takeBlock (events : List SseEvent) (block : List JsString) : List SseEvent :=
  events ++ (eventOf block).toList

theorem foldl_takeBlock (events : List SseEvent) (closed : List (List JsString)) :
    closed.foldl takeBlock events = events ++ closed.filterMap eventOf := by
  induction closed generalizing events with
  | nil => exact (List.append_nil events).symm
  | cons block closed ih =>
      rw [List.foldl_cons, ih, takeBlock, List.append_assoc]
      cases found : eventOf block with
      | none => rw [List.filterMap_cons_none found, Option.toList_none, List.nil_append]
      | some event => rw [List.filterMap_cons_some found, Option.toList_some, List.singleton_append]

/-- The reader's state, when a block is open and some events were delivered. -/
def readingOf (taken : List JsString × List SseEvent) : Open × List SseEvent :=
  (openOf taken.1, taken.2)

/-- A line that the reader reads arrives at the block. -/
theorem yieldLine_readingOf {block : List JsString} (events : List SseEvent) (raw : JsString)
    (partly : ∀ text ∈ block, text.isEmpty = false) :
    yieldLine (readingOf (block, events)) raw =
      readingOf (Framing.feed List.isEmpty takeBlock (block, events) [withoutReturn raw]) := by
  unfold yieldLine Framing.feed readingOf
  dsimp only
  rw [line_openOf, Framing.takeFrames_append_singleton partly]
  by_cases blank : withoutReturn raw = []
  · simp [blank, takeBlock]
  · simp [blank]

/-- So the lines that the reader reads arrive at the block. -/
theorem foldl_yieldLine (raws : List JsString) {block : List JsString} (events : List SseEvent)
    (partly : ∀ text ∈ block, text.isEmpty = false) :
    raws.foldl yieldLine (readingOf (block, events)) =
      readingOf (Framing.feed List.isEmpty takeBlock (block, events) (raws.map withoutReturn)) := by
  induction raws generalizing block events with
  | nil => rw [List.map_nil, Framing.feed_nil events (Framing.takeFrames_of_forall partly)]; rfl
  | cons raw raws ih =>
      have one : (raw :: raws).map withoutReturn = [withoutReturn raw] ++ raws.map withoutReturn :=
        rfl
      rw [List.foldl_cons, yieldLine_readingOf events raw partly, one, Framing.feed_append]
      exact ih _ (Framing.not_isEnd_of_mem_rest _)

/-! ### The end of the body -/

variable {decoder : TextDecoder}

/-- At the end of the stream, a character that was cut off is replaced. -/
def TextDecoder.Replaces (decoder : TextDecoder) : Prop :=
  ∀ state, decoder.flush state = [] ∨ decoder.flush state = [0xFFFD]

theorem utf8Decoder_replaces : utf8Decoder.Replaces := by
  intro state
  change Utf8State.flush state = [] ∨ Utf8State.flush state = [0xFFFD]
  unfold Utf8State.flush
  by_cases complete : state.needed = 0
  · exact .inl (if_pos complete)
  · rw [if_neg complete]
    exact .inr (if_neg fun mark => absurd mark.2 (by decide))

/-- What follows the last line feed is a carriage return alone, and the lines before it
leave an event with data open. -/
def CutOff (text : JsString) : Prop :=
  (text.splitOnP (· == LINE_FEED)).getLast? = some [CARRIAGE_RETURN] ∧
    ((blocks ((text.splitOnP (· == LINE_FEED)).dropLast.map withoutReturn)).getLast?.bind
      eventOf).isSome = true

instance (text : JsString) : Decidable (CutOff text) :=
  inferInstanceAs (Decidable (_ ∧ _))

theorem withoutReturn_eq_nil {raw : JsString} (blank : withoutReturn raw = []) :
    raw = [] ∨ raw = [CARRIAGE_RETURN] := by
  unfold withoutReturn at blank
  by_cases ends : raw.getLast? = some CARRIAGE_RETURN
  · obtain ⟨front, rfl⟩ := List.getLast?_eq_some_iff.mp ends
    rw [if_pos ends, List.dropLast_concat] at blank
    exact .inr (by rw [blank, List.nil_append])
  · exact .inl (by rwa [if_neg ends] at blank)

/-- The lines that line feeds end are read as they come, and what is left at the end is read
without a look at the event that it may complete. -/
theorem sseEvents_eq (replaces : decoder.Replaces) (chunks : List (List UInt8)) :
    ∃ raws last, (textOf decoder chunks).splitOnP (· == LINE_FEED) = raws ++ [last] ∧
      sseEvents decoder chunks =
        let state := raws.foldl yieldLine (readingOf ([], []))
        state.2 ++ (pending (if last = [] then state.1 else (line state.1 last).2)).1.toList := by
  obtain ⟨fed, decoding⟩ := fed_foldl_readChunk chunks (Reading.begin decoder) rfl
  unfold sseEvents finish
  generalize chunks.foldl readChunk (Reading.begin decoder) = reading at fed decoding ⊢
  generalize whole : decodeAll decoder (Reading.begin decoder).decoding chunks = decoded
    at fed decoding
  have text : textOf decoder chunks = decoded.1 ++ decoder.flush decoded.2 := by
    rw [← whole]
    rfl
  have flushed : ∀ unit ∈ decoder.flush decoded.2, (unit == LINE_FEED) = false := by
    obtain nothing | one := replaces decoded.2
    · simp [nothing]
    · rw [one]
      exact List.forall_mem_singleton.mpr rfl
  obtain ⟨buffer, state⟩ : reading.buffer = (Framing.takeFrames (· == LINE_FEED) decoded.1).2 ∧
      (reading.state, reading.yielded) =
        (Framing.takeFrames (· == LINE_FEED) decoded.1).1.foldl yieldLine (readingOf ([], [])) :=
    Prod.mk.injEq .. ▸ fed
  have partly : ∀ unit ∈ reading.buffer ++ decoder.flush decoded.2,
      (unit == LINE_FEED) = false := by
    rw [buffer]
    exact List.forall_mem_append.mpr ⟨Framing.not_isEnd_of_mem_rest decoded.1, flushed⟩
  refine ⟨(Framing.takeFrames (· == LINE_FEED) decoded.1).1,
    reading.buffer ++ decoder.flush decoded.2, ?_, ?_⟩
  · rw [text, ← Framing.takeFrames_concat, Framing.takeFrames_append, ← buffer,
      Framing.takeFrames_of_forall partly, List.append_nil]
  · rw [← state, decoding]

/-- The events that the lines make, and the block that they leave open. -/
theorem foldl_yieldLine_blocks (raws : List JsString) :
    raws.foldl yieldLine (readingOf ([], [])) =
      (openOf (Framing.takeFrames List.isEmpty (raws.map withoutReturn)).2,
        (Framing.takeFrames List.isEmpty (raws.map withoutReturn)).1.filterMap eventOf) := by
  rw [foldl_yieldLine raws [] (List.forall_mem_nil _), Framing.feed, List.nil_append]
  unfold readingOf
  dsimp only
  rw [foldl_takeBlock, List.nil_append]

/-- One more line ends the last block or is in it. -/
theorem blocks_concat (lines : List JsString) (text : JsString) :
    blocks (lines ++ [text]) = (Framing.takeFrames List.isEmpty lines).1 ++
      if text = [] then [(Framing.takeFrames List.isEmpty lines).2, []]
      else [(Framing.takeFrames List.isEmpty lines).2 ++ [text]] := by
  unfold blocks
  rw [← Framing.takeFrames_concat, Framing.takeFrames_append,
    Framing.takeFrames_append_singleton (Framing.not_isEnd_of_mem_rest lines)]
  by_cases blank : text = []
  · simp [blank]
  · simp [blank]

/-- The reader follows the grammar, unless a lone carriage return cuts an event off. -/
theorem sseEvents_eq_grammar_iff (replaces : decoder.Replaces) (chunks : List (List UInt8)) :
    sseEvents decoder chunks = grammar (textOf decoder chunks) ↔
      ¬ CutOff (textOf decoder chunks) := by
  obtain ⟨raws, last, split, events⟩ := sseEvents_eq replaces chunks
  have before : blocks (raws.map withoutReturn) = _ := (Framing.takeFrames_concat _).symm
  unfold grammar linesOf CutOff
  rw [events, split, foldl_yieldLine_blocks, List.map_append, List.map_singleton, blocks_concat,
    List.getLast?_concat, List.dropLast_concat, before, List.getLast?_concat, Option.bind_some]
  generalize Framing.takeFrames List.isEmpty (raws.map withoutReturn) = frames
  dsimp only
  rw [line_openOf, List.filterMap_append]
  by_cases blank : withoutReturn last = []
  · rw [if_pos blank, if_pos blank]
    have nothing : eventOf [] = none := rfl
    have delivered : [frames.2, []].filterMap eventOf = (eventOf frames.2).toList :=
      filterMap_singleton eventOf frames.2
    rw [delivered]
    obtain rfl | rfl := withoutReturn_eq_nil blank
    · rw [if_pos rfl, pending_openOf]
      simp
    · -- The event that this line completes is dropped.
      rw [if_neg (by decide), pending_openOf, nothing, List.append_right_inj]
      cases eventOf frames.2 <;> simp
  · have other : last ≠ [] := by
      rintro rfl
      exact blank rfl
    have apart : last ≠ [CARRIAGE_RETURN] := by
      rintro rfl
      exact blank rfl
    rw [if_neg blank, if_neg blank, if_neg other, pending_openOf, filterMap_singleton]
    simp [apart]

theorem sseEvents_eq_grammar_iff_ended :
    sseEvents utf8Decoder [[0x64, 0x61, 0x74, 0x61, 0x3A, 0x78]] =
        grammar (textOf utf8Decoder [[0x64, 0x61, 0x74, 0x61, 0x3A, 0x78]]) ↔
      ¬ CutOff (textOf utf8Decoder [[0x64, 0x61, 0x74, 0x61, 0x3A, 0x78]]) :=
  sseEvents_eq_grammar_iff utf8Decoder_replaces _

/-- The event of `data:x`, a line feed and a carriage return is lost. -/
theorem not_sseEvents_eq_grammar :
    ¬ ∀ chunks, sseEvents utf8Decoder chunks = grammar (textOf utf8Decoder chunks) := by
  intro follows
  exact absurd (follows [[0x64, 0x61, 0x74, 0x61, 0x3A, 0x78, 0x0A, 0x0D]]) (by decide)

end Sse

end Hermione
