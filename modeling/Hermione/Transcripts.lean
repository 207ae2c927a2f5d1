import Hermione.RecordingPrefix
import Hermione.StableSorts
import Hermione.Utf8Chunks

/-!
# A transcript and the reads it was recorded by

Every chunk of a recording is stripped of escape sequences and read as text by
itself, and the transcript is these texts.  The stripper reads bytes one by one and
starts over at every chunk, so a chunk that begins inside an escape sequence or a
character is read differently from how the whole output is.
-/

namespace Hermione

namespace SessionIngest

open StableSorts
open Str (IsUtf8 asBytes fromUtf8Lossy)

/-! ### The transcript -/

/-- The label that a transcript is restricted to by its query. -/
def streamFilter (stream : Option Str) : Option StreamLabel :=
  if stream = some "stdin".toList then some .stdin
  else if stream = some "all".toList then none
  else some .stdout

/-- The plain-text transcript of a session's rows, in order. -/
def transcript (codecs : Codecs) (rows : List TerminalRow) (stream : Option Str) : Str :=
  (sortBy TerminalRow.seq (rows.filter fun row =>
      (streamFilter stream).all fun label => row.stream = label)).flatMap fun row =>
    row.text.getD (codecs.plain ((codecs.decode row.data).getD []))

/-- What a session's chunks have of the program's output, read by read. -/
def outputs (chunks : List TerminalChunk) : List (List UInt8) :=
  (chunks.filter fun chunk => streamLabel chunk.stream = .stdout).map TerminalChunk.data

theorem pairwise_chunkRows (codecs : Codecs) (id : Uuid) (chunks : List TerminalChunk) :
    (chunkRows codecs id chunks).Pairwise fun first second => first.seq ≤ second.seq := by
  rw [List.pairwise_iff_getElem]
  intro i j iLt jLt less
  simp only [chunkRows, List.getElem_mapIdx, chunkRow]
  exact less.le

theorem flatMap_chunkRows (codecs : Codecs) (id : Uuid) (chunks : List TerminalChunk) :
    (((chunkRows codecs id chunks).filter fun row => row.stream = .stdout).flatMap fun row =>
        row.text.getD (codecs.plain ((codecs.decode row.data).getD []))) =
      (outputs chunks).flatMap codecs.plain := by
  induction chunks using List.reverseRecOn with
  | nil => rfl
  | append_singleton chunks chunk ih =>
      rw [chunkRows_concat, List.filter_append, List.flatMap_append, ih, outputs, outputs,
        List.filter_append, List.map_append, List.flatMap_append]
      congr 1
      by_cases shown : streamLabel chunk.stream = .stdout
      · simp [chunkRow, shown]
      · simp [chunkRow, shown]

/-- The transcript of a recording is the texts of the program's output, chunk by
chunk. -/
theorem transcript_chunkRows (codecs : Codecs) (id : Uuid) (chunks : List TerminalChunk) :
    transcript codecs (chunkRows codecs id chunks) none =
      (outputs chunks).flatMap codecs.plain := by
  have ordered := (pairwise_chunkRows codecs id chunks).filter fun row => row.stream = .stdout
  have sorted := List.mergeSort_of_pairwise (ordered.imp decide_eq_true)
  rw [← flatMap_chunkRows codecs id]
  exact congrArg (List.flatMap _) sorted

/-! ### The stripper -/

/-- A parser that reads bytes one by one and writes some on the way. -/
structure EscapeParser where
  State : Type
  ground : State
  advance : State → UInt8 → State × List UInt8

namespace EscapeParser

variable (parser : EscapeParser)

/-- What the parser has written after some bytes, and how it stands. -/
def parse (state : parser.State) : List UInt8 → parser.State × List UInt8
  | [] => (state, [])
  | byte :: bytes =>
      ((parse (parser.advance state byte).1 bytes).1,
        (parser.advance state byte).2 ++ (parse (parser.advance state byte).1 bytes).2)

/-- What the parser writes of a buffer. -/
def strip (bytes : List UInt8) : List UInt8 :=
  (parser.parse parser.ground bytes).2

/-- A read that leaves the parser outside of any escape sequence and ends with a
whole character. -/
structure Whole (piece : List UInt8) : Prop where
  ground : (parser.parse parser.ground piece).1 = parser.ground
  utf8 : IsUtf8 (parser.strip piece)

variable {parser}

theorem parse_append (state : parser.State) (front back : List UInt8) :
    parser.parse state (front ++ back) =
      ((parser.parse (parser.parse state front).1 back).1,
        (parser.parse state front).2 ++ (parser.parse (parser.parse state front).1 back).2) := by
  induction front generalizing state with
  | nil => rfl
  | cons byte front ih => simp [parse, ih]

theorem strip_append {piece : List UInt8} (whole : parser.Whole piece) (rest : List UInt8) :
    parser.strip (piece ++ rest) = parser.strip piece ++ parser.strip rest := by
  unfold strip
  rw [parse_append, whole.ground]

end EscapeParser

section Cuts

variable {codecs : Codecs} {parser : EscapeParser}
variable (strips : codecs.stripAnsi = parser.strip)

include strips

theorem plain_append {piece : List UInt8} (whole : parser.Whole piece) (rest : List UInt8) :
    codecs.plain (piece ++ rest) = codecs.plain piece ++ codecs.plain rest := by
  obtain ⟨text, bytes⟩ := whole.utf8
  unfold Codecs.plain
  rw [strips, EscapeParser.strip_append whole, bytes, Str.fromUtf8Lossy_append,
    Str.fromUtf8Lossy_asBytes]

/-- Reads that all but the last are whole give the text of the whole output. -/
theorem flatMap_plain {pieces : List (List UInt8)}
    (whole : ∀ piece ∈ pieces.dropLast, parser.Whole piece) :
    pieces.flatMap codecs.plain = codecs.plain pieces.flatten := by
  induction pieces with
  | nil =>
      rw [List.flatten_nil, Codecs.plain, strips]
      rfl
  | cons piece pieces ih =>
      cases pieces with
      | nil => simp
      | cons next pieces =>
          rw [List.dropLast_cons_of_ne_nil (List.cons_ne_nil _ _)] at whole
          rw [List.flatMap_cons, List.flatten_cons,
            plain_append strips (whole piece List.mem_cons_self),
            ih fun other later => whole other (List.mem_cons_of_mem _ later)]

/-- Two recordings of the same output, neither with a read that stops inside an escape
sequence or a character and is not the last, have the same transcript. -/
theorem transcript_cuts {one other : List TerminalChunk} {id : Uuid}
    (same : (outputs one).flatten = (outputs other).flatten)
    (oneWhole : ∀ piece ∈ (outputs one).dropLast, parser.Whole piece)
    (otherWhole : ∀ piece ∈ (outputs other).dropLast, parser.Whole piece) :
    transcript codecs (chunkRows codecs id one) none =
      transcript codecs (chunkRows codecs id other) none := by
  rw [transcript_chunkRows, transcript_chunkRows, flatMap_plain strips oneWhole,
    flatMap_plain strips otherWhole, same]

end Cuts

/-! ### A colour cut in two -/

inductive Ansi where
  | ground
  | escape
  | csi
  deriving DecidableEq

/-- A parser that drops control sequences. -/
def controlSequences : EscapeParser where
  State := Ansi
  ground := .ground
  advance
    | .ground, byte => if byte = 0x1B then (.escape, []) else (.ground, [byte])
    | .escape, byte => if byte = 0x5B then (.csi, []) else (.ground, [])
    | .csi, byte => if 0x40 ≤ byte then (.ground, []) else (.csi, [])

def controlCodecs : Codecs :=
  { Codecs.hello with stripAnsi := controlSequences.strip }

def stdoutChunk (data : List UInt8) : TerminalChunk :=
  { stream := StreamKind.stdout.number, data, offsetMs := 0 }

theorem transcript_cuts_red :
    transcript controlCodecs (chunkRows controlCodecs 7
        [stdoutChunk (asBytes "\x1b[31mhi".toList)]) none =
      transcript controlCodecs (chunkRows controlCodecs 7
        [stdoutChunk (asBytes "\x1b[31m".toList), stdoutChunk (asBytes "hi".toList)]) none :=
  @transcript_cuts controlCodecs controlSequences rfl _ _ 7 (by decide +kernel) (by
    intro piece member
    cases member) (by
    intro piece member
    obtain rfl := List.mem_singleton.mp member
    exact ⟨rfl, by decide +kernel⟩)

/-- A read stops inside the colour, and its end is taken for text. -/
theorem not_transcript_cuts :
    ∃ codecs parser, codecs.stripAnsi = EscapeParser.strip parser ∧
      ∃ one other id, (outputs one).flatten = (outputs other).flatten ∧
        transcript codecs (chunkRows codecs id one) none ≠
          transcript codecs (chunkRows codecs id other) none := by
  refine ⟨controlCodecs, controlSequences, rfl, [stdoutChunk (asBytes "\x1b[31mhi".toList)],
    [stdoutChunk (asBytes "\x1b[".toList), stdoutChunk (asBytes "31mhi".toList)], 7,
    by decide +kernel, ?_⟩
  rw [transcript_chunkRows, transcript_chunkRows]
  decide +kernel

end SessionIngest

end Hermione
