import Hermione.ReportText
import Hermione.SnapshotKeys

/-!
# What the editor sends is accepted

The editor cuts a long buffer after so many UTF-16 units, and where that is
between the surrogates of a pair it sends half a character, which the server
refuses along with everything else in the report.
-/

namespace Hermione

/-! ### Decoding the report -/

namespace Editor

@[simp]
theorem decode_js (text : String) : Utf16.decode (js text) = some text.toList :=
  Utf16.decode_encode _

theorem decodeMembers_append (first second : List (JsString × Json JsString)) :
    Json.decodeMembers (first ++ second) =
      (Json.decodeMembers first).bind fun members =>
        (Json.decodeMembers second).map fun more => members ++ more := by
  induction first with
  | nil => simp [Json.decodeMembers]
  | cons member first ih =>
      obtain ⟨key, value⟩ := member
      rw [List.cons_append, Json.decodeMembers, Json.decodeMembers, ih]
      cases Utf16.decode key <;> cases Json.decode value <;>
        cases Json.decodeMembers first <;> cases Json.decodeMembers second <;> rfl

theorem decode_exercise (exercise : Option JsString) :
    Json.decodeMembers (exercise.toList.map fun exercise => (js "exercise", .string exercise)) =
      (exercise.mapM Utf16.decode).map fun exercise =>
        exercise.toList.map fun exercise => ("exercise".toList, .string exercise) := by
  cases exercise with
  | none => rfl
  | some exercise =>
      simp only [Option.toList_some, List.map_cons, List.map_nil, Json.decodeMembers, Json.decode,
        decode_js, Option.mapM_some]
      cases Utf16.decode exercise <;> rfl

theorem decode_cursor (cursor : Option Position) :
    Json.decodeMembers (cursor.toList.map fun cursor =>
        (js "cursor", jsonPosition js "line" "column" cursor)) =
      some (cursor.toList.map fun cursor =>
        ("cursor".toList, jsonPosition String.toList "line" "column" cursor)) := by
  cases cursor with
  | none => rfl
  | some cursor =>
      simp only [Option.toList_some, List.map_cons, List.map_nil, jsonPosition, Json.decodeMembers,
        Json.decode, decode_js]
      rfl

theorem decode_truncated (truncated : Bool) :
    Json.decodeMembers (if truncated then [(js "truncated", .bool true)] else []) =
      some (if truncated then [("truncated".toList, .bool true)] else []) := by
  cases truncated with
  | false => rfl
  | true =>
      simp only [if_true, Json.decodeMembers, Json.decode, decode_js]
      rfl

/-- A report is decoded if all its strings are. -/
theorem decode_jsonFile (student path relativePath language : JsString)
    (exercise : Option JsString) (cursor : Option Position) (dirty : Bool) (content : JsString)
    (truncated : Bool) (baseline : Json JsString) :
    Json.decode (jsonFile js student path relativePath language exercise cursor dirty content
        truncated baseline) = (do
      let student ← Utf16.decode student
      let path ← Utf16.decode path
      let relativePath ← Utf16.decode relativePath
      let language ← Utf16.decode language
      let exercise ← exercise.mapM Utf16.decode
      let content ← Utf16.decode content
      let baseline ← Json.decode baseline
      return jsonFile String.toList student path relativePath language exercise cursor dirty
        content truncated baseline) := by
  rw [jsonFile, Json.decode]
  simp only [decodeMembers_append, decode_exercise, decode_cursor, decode_truncated,
    Json.decodeMembers, Json.decode, decode_js]
  rcases Utf16.decode student with _ | student
  · rfl
  rcases Utf16.decode path with _ | path
  · rfl
  rcases Utf16.decode relativePath with _ | relativePath
  · rfl
  rcases Utf16.decode language with _ | language
  · rfl
  rcases exercise.mapM Utf16.decode with _ | exercise
  · rfl
  rcases Utf16.decode content with _ | content
  · rfl
  rcases Json.decode baseline with _ | baseline
  · rfl
  rfl

section Fields

variable (student path relativePath language : Str) (exercise : Option Str)
  (cursor : Option Position) (dirty : Bool) (content : Str) (truncated : Bool)
  (baseline : Json Str)

/-- The members that are always there. -/
theorem field_jsonFile {name : String} {value : Json Str}
    (member : (name, value) ∈
      [("student", .string student), ("state", .string "file".toList), ("path", .string path),
        ("relativePath", .string relativePath), ("language", .string language),
        ("dirty", .bool dirty), ("content", .string content), ("baseline", baseline)]) :
    Deserialize.field name (jsonFile String.toList student path relativePath language exercise
      cursor dirty content truncated baseline) = some (some value) := by
  simp only [List.mem_cons, Prod.mk.injEq, List.not_mem_nil, or_false] at member
  rcases member with ⟨rfl, rfl⟩ | ⟨rfl, rfl⟩ | ⟨rfl, rfl⟩ | ⟨rfl, rfl⟩ | ⟨rfl, rfl⟩ |
    ⟨rfl, rfl⟩ | ⟨rfl, rfl⟩ | ⟨rfl, rfl⟩ <;>
    cases exercise <;> cases cursor <;> cases truncated <;> rfl

theorem optional_exercise :
    Deserialize.optional "exercise" Deserialize.string (jsonFile String.toList student path
      relativePath language exercise cursor dirty content truncated baseline) =
        some exercise := by
  cases exercise <;> cases cursor <;> cases truncated <;> rfl

theorem optional_cursor :
    Deserialize.optional "cursor" Deserialize.cursor (jsonFile String.toList student path
      relativePath language exercise cursor dirty content truncated baseline) =
        cursor.mapM fun cursor =>
          Deserialize.cursor (jsonPosition String.toList "line" "column" cursor) := by
  cases exercise <;> cases cursor <;> cases truncated <;> rfl

theorem orElse_truncated :
    Deserialize.orElse "truncated" Deserialize.bool (jsonFile String.toList student path
      relativePath language exercise cursor dirty content truncated baseline) false =
        some truncated := by
  cases exercise <;> cases cursor <;> cases truncated <;> rfl

/-- What is made of a decoded report. -/
theorem report_jsonFile :
    Deserialize.report (jsonFile String.toList student path relativePath language exercise cursor
        dirty content truncated baseline) = (do
      let student ← (Student.tryFrom student).toOption
      let cursor ← cursor.mapM fun cursor =>
        Deserialize.cursor (jsonPosition String.toList "line" "column" cursor)
      let baseline ← Deserialize.baseline baseline
      return {
        student
        state := .file
          { path, relativePath, language, exercise, cursor, dirty, content, truncated,
            baseline } }) := by
  have fields {name : String} {value : Json Str} := @field_jsonFile student path relativePath
    language exercise cursor dirty content truncated baseline name value
  have required {Value : Type} {name : String} {value : Json Str}
      (read : Json Str → Option Value)
      (there : (name, value) ∈
        [("student", .string student), ("state", .string "file".toList), ("path", .string path),
          ("relativePath", .string relativePath), ("language", .string language),
          ("dirty", .bool dirty), ("content", .string content), ("baseline", baseline)]) :
      Deserialize.required name read (jsonFile String.toList student path relativePath language
        exercise cursor dirty content truncated baseline) = read value := by
    rw [Deserialize.required, fields there]
  have dirtiness : Deserialize.orElse "dirty" Deserialize.bool (jsonFile String.toList student path
      relativePath language exercise cursor dirty content truncated baseline) false =
        some dirty := by
    rw [Deserialize.orElse, @fields "dirty" (.bool dirty) (by simp)]
    rfl
  rw [Deserialize.report, Deserialize.state, Deserialize.file,
    @required _ "student" (.string student) _ (by simp),
    @required _ "state" (.string "file".toList) _ (by simp),
    @required _ "path" (.string path) _ (by simp),
    @required _ "relativePath" (.string relativePath) _ (by simp),
    @required _ "language" (.string language) _ (by simp),
    @required _ "content" (.string content) _ (by simp),
    @required _ "baseline" baseline _ (by simp), dirtiness, optional_exercise, optional_cursor,
    orElse_truncated]
  have named : Deserialize.student (.string student) = (Student.tryFrom student).toOption := rfl
  rw [named]
  rcases (Student.tryFrom student).toOption with _ | student
  · rfl
  rcases cursor.mapM fun cursor =>
      Deserialize.cursor (jsonPosition String.toList "line" "column" cursor) with _ | cursor
  · rfl
  rcases Deserialize.baseline baseline with _ | baseline
  · rfl
  rfl

end Fields

/-! ### The caret -/

/-- Both numbers of a caret fit. -/
def Fits (position : Position) : Prop :=
  (0 < position.line ∧ position.line < 2 ^ 32) ∧
    0 < position.character ∧ position.character < 2 ^ 32

theorem unsigned_ofNat (bits number : Nat) :
    Deserialize.unsigned bits (.number (.ofNat number)) =
      if number < 2 ^ bits then some number else none := by
  rw [Deserialize.unsigned, Json.Numeral.toNat?_ofNat, Option.filter_some]
  by_cases small : number < 2 ^ bits
  · rw [if_pos small, if_pos (decide_eq_true small)]
  · rw [if_neg small, if_neg (by rwa [decide_eq_true_eq])]

theorem nonZeroU32_ofNat (number : Nat) :
    Deserialize.nonZeroU32 (.number (.ofNat number)) =
      if bounds : 0 < number ∧ number < 2 ^ 32 then some ⟨number, bounds⟩ else none := by
  rw [Deserialize.nonZeroU32, unsigned_ofNat]
  by_cases small : number < 2 ^ 32
  · rw [if_pos small, Option.bind_some]
  · rw [if_neg small, dif_neg fun bounds => small bounds.2]
    rfl

theorem cursor_jsonPosition (position : Position) :
    (Deserialize.cursor (jsonPosition String.toList "line" "column" position)).isSome ↔
      Fits position := by
  have read : Deserialize.cursor (jsonPosition String.toList "line" "column" position) =
      (Deserialize.nonZeroU32 (.number (.ofNat position.line))).bind fun line =>
        (Deserialize.nonZeroU32 (.number (.ofNat position.character))).bind fun column =>
          some { line, column } := rfl
  rw [read, nonZeroU32_ofNat, nonZeroU32_ofNat]
  by_cases line : 0 < position.line ∧ position.line < 2 ^ 32
  · by_cases column : 0 < position.character ∧ position.character < 2 ^ 32
    · rw [dif_pos line, dif_pos column]
      exact iff_of_true rfl ⟨line, column⟩
    · rw [dif_pos line, dif_neg column]
      exact iff_of_false nofun fun fits => column fits.2
  · rw [dif_neg line]
    exact iff_of_false nofun fun fits => line fits.1

/-! ### The hunks -/

/-- A line the server can read: text after a sign. -/
def Signed (line : JsString) : Prop :=
  line.head? = some 0x20 ∨ line.head? = some 0x2B ∨ line.head? = some 0x2D

/-- A line that encodes a text and starts with a sign is read. -/
theorem diffLine_of_signed {line : JsString} {text : Str} (signed : Signed line)
    (read : Utf16.decode line = some text) :
    ∃ diffLine, Report.DiffLine.tryFrom text = .ok diffLine := by
  rw [Utf16.decode_eq_some_iff.mp read] at signed
  rcases signed with head | head | head
  · obtain ⟨rest, rfl⟩ := Utf16.exists_cons_of_head head (by decide)
    exact ⟨.context rest, rfl⟩
  · obtain ⟨rest, rfl⟩ := Utf16.exists_cons_of_head head (by decide)
    exact ⟨.added rest, rfl⟩
  · obtain ⟨rest, rfl⟩ := Utf16.exists_cons_of_head head (by decide)
    exact ⟨.removed rest, rfl⟩

/-- A hunk the server can read. -/
structure Sendable (hunk : Hunk) : Prop where
  oldStart : hunk.oldStart < 2 ^ 32
  newStart : hunk.newStart < 2 ^ 32
  signed : ∀ line ∈ hunk.lines, Signed line
  formed : ∀ line ∈ hunk.lines, Utf16.WellFormed line

theorem decode_strings {lines : List JsString} (formed : ∀ line ∈ lines, Utf16.WellFormed line) :
    ∃ texts, Json.decodeElements (lines.map .string) = some (texts.map .string) ∧
      List.Forall₂ (fun line text => Utf16.decode line = some text) lines texts := by
  induction lines with
  | nil => exact ⟨[], rfl, .nil⟩
  | cons line lines ih =>
      rw [List.forall_mem_cons] at formed
      obtain ⟨text, read⟩ := Option.isSome_iff_exists.mp formed.1
      obtain ⟨texts, decoded, all⟩ := ih formed.2
      refine ⟨text :: texts, ?_, .cons read all⟩
      rw [List.map_cons, Json.decodeElements, Json.decode, read, decoded]
      rfl

theorem vec_diffLine {lines : List JsString} {texts : List Str}
    (signed : ∀ line ∈ lines, Signed line)
    (all : List.Forall₂ (fun line text => Utf16.decode line = some text) lines texts) :
    ∃ read, Deserialize.vec Deserialize.diffLine (.array (texts.map .string)) = some read := by
  induction all with
  | nil => exact ⟨[], rfl⟩
  | cons decoded all ih =>
      rw [List.forall_mem_cons] at signed
      obtain ⟨diffLine, made⟩ := diffLine_of_signed signed.1 decoded
      obtain ⟨read, more⟩ := ih signed.2
      refine ⟨diffLine :: read, ?_⟩
      rw [Deserialize.vec] at more ⊢
      have first : Deserialize.diffLine (.string _) = some diffLine :=
        congrArg Except.toOption made
      rw [List.map_cons, List.mapM_cons, first, more]
      rfl

theorem hunk_jsonHunk {hunk : Hunk} (sendable : Sendable hunk) :
    ∃ value, Json.decode (jsonHunk js hunk.oldStart hunk.newStart hunk.lines) = some value ∧
      ∃ read, Deserialize.hunk value = some read := by
  obtain ⟨texts, decoded, all⟩ := decode_strings sendable.formed
  obtain ⟨lines, read⟩ := vec_diffLine sendable.signed all
  refine ⟨jsonHunk String.toList hunk.oldStart hunk.newStart texts, ?_,
    { oldStart := hunk.oldStart, newStart := hunk.newStart, lines }, ?_⟩
  · simp only [jsonHunk, Json.decode, Json.decodeMembers, decode_js, decoded]
    rfl
  · have fields : Deserialize.hunk (jsonHunk String.toList hunk.oldStart hunk.newStart texts) =
        (Deserialize.unsigned 32 (.number (.ofNat hunk.oldStart))).bind fun oldStart =>
          (Deserialize.unsigned 32 (.number (.ofNat hunk.newStart))).bind fun newStart =>
            (Deserialize.vec Deserialize.diffLine (.array (texts.map .string))).bind fun lines =>
              some { oldStart, newStart, lines } := rfl
    rw [fields, unsigned_ofNat, unsigned_ofNat, if_pos sendable.oldStart,
      if_pos sendable.newStart, read]
    rfl

theorem decode_hunks {hunks : List Hunk} (sendable : ∀ hunk ∈ hunks, Sendable hunk) :
    ∃ values, Json.decodeElements (hunks.map fun hunk =>
        jsonHunk js hunk.oldStart hunk.newStart hunk.lines) = some values ∧
      ∃ read, Deserialize.vec Deserialize.hunk (.array values) = some read := by
  induction hunks with
  | nil => exact ⟨[], rfl, [], rfl⟩
  | cons hunk hunks ih =>
      rw [List.forall_mem_cons] at sendable
      obtain ⟨value, decoded, first, read⟩ := hunk_jsonHunk sendable.1
      obtain ⟨values, rest, others, more⟩ := ih sendable.2
      refine ⟨value :: values, ?_, first :: others, ?_⟩
      · rw [List.map_cons, Json.decodeElements, decoded, rest]
        rfl
      · rw [Deserialize.vec] at more ⊢
        rw [List.mapM_cons, read, more]
        rfl

/-- What the buffer is compared with is read, if its hunks are. -/
theorem baseline_jsonBaseline {baseline : Baseline}
    (sendable : ∀ hunks, baseline = .head hunks → ∀ hunk ∈ hunks, Sendable hunk) :
    ∃ value, Json.decode (jsonBaseline baseline) = some value ∧
      ∃ read, Deserialize.baseline value = some read := by
  cases baseline with
  | head hunks =>
      obtain ⟨values, decoded, read, made⟩ := decode_hunks (sendable hunks rfl)
      refine ⟨jsonHead String.toList values, ?_, .head read, ?_⟩
      · simp only [jsonBaseline, jsonHead, Json.decode, Json.decodeMembers, decode_js, decoded]
        rfl
      · have fields : Deserialize.baseline (jsonHead String.toList values) =
            (Deserialize.vec Deserialize.hunk (.array values)).map .head := rfl
        rw [fields, made]
        rfl
  | untracked => exact ⟨jsonKind String.toList "untracked", rfl, .untracked, rfl⟩
  | none => exact ⟨jsonKind String.toList "none", rfl, .unavailable, rfl⟩

/-! ### What jsdiff and git promise -/

/-- What is documented of the hunks of a patch and of what git shows. -/
structure Documented {Uri : Type} (around : Surroundings Uri) : Prop where
  /-- A line starts with its sign, or tells that a text does not end in a newline. -/
  signed : ∀ context old new, ∀ hunk ∈ around.structuredPatch context old new,
    ∀ line ∈ hunk.lines, Signed line ∨ line.head? = some 0x5C
  /-- Texts are taken apart at their newlines only. -/
  formed : ∀ context old new, Utf16.WellFormed old → Utf16.WellFormed new →
    ∀ hunk ∈ around.structuredPatch context old new, ∀ line ∈ hunk.lines, Utf16.WellFormed line
  /-- A hunk starts at a line of each text, or after the last. -/
  starts : ∀ context old new, ∀ hunk ∈ around.structuredPatch context old new,
    hunk.oldStart ≤ old.length + 1 ∧ hunk.newStart ≤ new.length + 1
  /-- A committed text is decoded from bytes, and no string is longer than this. -/
  committed : ∀ commit file old, around.textAt commit file = some old →
    Utf16.WellFormed old ∧ old.length < 2 ^ 30

section Reports

variable {Uri : Type} {around : Surroundings Uri}

theorem sendable_diffHunks (documented : Documented around) {old new : JsString}
    (oldFormed : Utf16.WellFormed old) (oldShort : old.length < 2 ^ 30)
    (newFormed : Utf16.WellFormed new) (newShort : new.length < 2 ^ 30) :
    ∀ hunk ∈ diffHunks around old new, Sendable hunk := by
  intro hunk member
  obtain ⟨patch, inside, rfl⟩ := List.mem_map.mp member
  have starts := documented.starts _ _ _ patch inside
  refine ⟨by dsimp only; omega, by dsimp only; omega, ?_, ?_⟩
  · intro line listed
    obtain ⟨there, marked⟩ := List.mem_filter.mp listed
    rw [decide_eq_true_eq] at marked
    exact (documented.signed _ _ _ patch inside line there).resolve_right marked
  · intro line listed
    exact documented.formed _ _ _ oldFormed newFormed patch inside line
      (List.mem_filter.mp listed).1

/-! ### Acceptance -/

/-- The server makes a report of the posted text, with a file whose content is
the start of the document, in whole characters, and all of it unless it was cut. -/
def Accepted (document : JsString) (posted : Str) : Prop :=
  ∃ report file, Report.fromText posted = some report ∧ report.state = .file file ∧
    ∃ rest, document = Utf16.encode file.content ++ rest ∧
      (document.length ≤ MAX_CONTENT_CHARS → rest = [])

/-- No string that is sent has half of a pair in it, and the caret fits. -/
structure Transmittable (around : Surroundings Uri) (student : JsString) (moment : Moment Uri) :
    Prop where
  student : Utf16.WellFormed student
  path : Utf16.WellFormed (around.fsPath moment.target.uri)
  relativePath : Utf16.WellFormed (around.locate moment.target.uri).relativePath
  language : Utf16.WellFormed moment.target.doc.languageId
  exercise : ∀ exercise, (around.locate moment.target.uri).exercise = some exercise →
    Utf16.WellFormed exercise
  content : Utf16.WellFormed (moment.target.doc.text.take MAX_CONTENT_CHARS)
  caret : ∀ position, moment.target.active = some position →
    position.line + 1 < 2 ^ 32 ∧ position.character + 1 < 2 ^ 32

/-- What the server makes of the text of a report. -/
theorem fromText_reportText (student : JsString) (file : OpenFile) :
    Report.fromText (reportText student file) = (do
      let student ← Utf16.decode student
      let path ← Utf16.decode file.path
      let relativePath ← Utf16.decode file.relativePath
      let language ← Utf16.decode file.language
      let exercise ← file.exercise.mapM Utf16.decode
      let content ← Utf16.decode file.content
      let baseline ← Json.decode (jsonBaseline file.baseline)
      let student ← (Student.tryFrom student).toOption
      let cursor ← file.cursor.mapM fun cursor =>
        Deserialize.cursor (jsonPosition String.toList "line" "column" cursor)
      let baseline ← Deserialize.baseline baseline
      return {
        student
        state := .file
          { path, relativePath, language, exercise, cursor, dirty := file.dirty, content,
            truncated := file.truncated, baseline } }) := by
  rw [Report.fromText, reportText, Json.parse_stringify, decode_jsonFile]
  simp only [Option.bind_eq_bind, Option.bind_assoc, Option.pure_def, Option.bind_some,
    report_jsonFile]

/-- The hunks of a report are such that the server can read them. -/
theorem sendable_baseline (documented : Documented around) {caches : Caches}
    (valid : caches.Valid around) {moment : Moment Uri}
    (content : Utf16.WellFormed (moment.target.doc.text.take MAX_CONTENT_CHARS)) :
    ∀ hunks, (buildOpenFile around caches moment).1.baseline = .head hunks →
      ∀ hunk ∈ hunks, Sendable hunk := by
  intro hunks compared
  rw [buildOpenFile_eq valid] at compared
  dsimp only at compared
  split at compared
  · cases compared
  · next comparable =>
      split at compared
      · cases compared
      · next old hand =>
          have short := Nat.le_of_not_lt (mt Or.inl comparable)
          rw [List.take_of_length_le short] at content
          obtain ⟨formed, bounded⟩ :=
            documented.committed _ _ _ (textAt_of_onHand valid.baselines hand)
          cases compared
          exact sendable_diffHunks documented formed bounded content
            (lt_of_le_of_lt short (by decide))

theorem transmittable_of_accepted {caches : Caches} (valid : caches.Valid around)
    {moment : Moment Uri} {student : JsString}
    (accepted : Accepted moment.target.doc.text
      (reportText student (buildOpenFile around caches moment).1)) :
    Transmittable around student moment := by
  have built := buildOpenFile_eq valid moment
  unfold Accepted at accepted
  rw [fromText_reportText] at accepted
  simp only [Option.bind_eq_bind, Option.bind_eq_some_iff, Option.pure_def] at accepted
  revert accepted
  rintro ⟨report, file, ⟨name, named, path, located, relativePath, related, language, spoken,
    exercise, mapped, content, shown, value, -, who, -, cursor, placed, -⟩, -⟩
  rw [built] at located related spoken mapped shown placed
  dsimp only at located related spoken mapped shown placed
  refine ⟨Option.isSome_iff_exists.mpr ⟨_, named⟩, Option.isSome_iff_exists.mpr ⟨_, located⟩,
    Option.isSome_iff_exists.mpr ⟨_, related⟩, Option.isSome_iff_exists.mpr ⟨_, spoken⟩, ?_,
    Option.isSome_iff_exists.mpr ⟨_, shown⟩, ?_⟩
  · intro own some
    rw [some, Option.mapM_some] at mapped
    obtain ⟨text, read, -⟩ := Option.map_eq_some_iff.mp mapped
    exact Option.isSome_iff_exists.mpr ⟨text, read⟩
  · intro position some
    rw [some, Option.map_some, Option.mapM_some] at placed
    obtain ⟨caret, read, -⟩ := Option.map_eq_some_iff.mp placed
    obtain ⟨line, column⟩ :=
      (cursor_jsonPosition _).mp (Option.isSome_iff_exists.mpr ⟨caret, read⟩)
    exact ⟨line.2, column.2⟩

theorem accepted_of_transmittable (documented : Documented around) {caches : Caches}
    (valid : caches.Valid around) {moment : Moment Uri} {student : JsString}
    (notBlank : ∀ name, Utf16.decode student = some name → Str.trim name ≠ [])
    (transmittable : Transmittable around student moment) :
    Accepted moment.target.doc.text
      (reportText student (buildOpenFile around caches moment).1) := by
  have built := buildOpenFile_eq valid moment
  unfold Accepted
  rw [fromText_reportText]
  simp only [Option.bind_eq_bind, Option.bind_eq_some_iff, Option.pure_def]
  obtain ⟨name, named⟩ := Option.isSome_iff_exists.mp transmittable.student
  obtain ⟨path, located⟩ := Option.isSome_iff_exists.mp transmittable.path
  obtain ⟨relativePath, related⟩ := Option.isSome_iff_exists.mp transmittable.relativePath
  obtain ⟨language, spoken⟩ := Option.isSome_iff_exists.mp transmittable.language
  obtain ⟨content, shown⟩ := Option.isSome_iff_exists.mp transmittable.content
  obtain ⟨exercise, mapped⟩ : ∃ exercise,
      (around.locate moment.target.uri).exercise.mapM Utf16.decode = some exercise := by
    cases own : (around.locate moment.target.uri).exercise with
    | none => exact ⟨none, rfl⟩
    | some exercise =>
        obtain ⟨text, read⟩ := Option.isSome_iff_exists.mp (transmittable.exercise exercise own)
        exact ⟨some text, by rw [Option.mapM_some, read]; rfl⟩
  obtain ⟨cursor, placed⟩ : ∃ cursor,
      (buildOpenFile around caches moment).1.cursor.mapM (fun cursor =>
        Deserialize.cursor (jsonPosition String.toList "line" "column" cursor)) =
          some cursor := by
    rw [built]
    cases own : moment.target.active with
    | none => exact ⟨none, rfl⟩
    | some position =>
        obtain ⟨line, column⟩ := transmittable.caret position own
        obtain ⟨caret, read⟩ := Option.isSome_iff_exists.mp
          ((cursor_jsonPosition ⟨position.line + 1, position.character + 1⟩).mpr
            ⟨⟨Nat.succ_pos _, line⟩, Nat.succ_pos _, column⟩)
        exact ⟨some caret, by rw [Option.map_some, Option.mapM_some, read]; rfl⟩
  obtain ⟨value, decoded, baseline, read⟩ :=
    baseline_jsonBaseline (sendable_baseline documented valid transmittable.content)
  let made : Report.File :=
    { path, relativePath, language, exercise, cursor,
      dirty := (buildOpenFile around caches moment).1.dirty, content,
      truncated := (buildOpenFile around caches moment).1.truncated,
      baseline }
  refine ⟨{ student := ⟨name, notBlank name named⟩, state := .file made }, made, ?_, rfl,
    moment.target.doc.text.drop MAX_CONTENT_CHARS, ?_, ?_⟩
  · refine ⟨name, named, path, ?_, relativePath, ?_, language, ?_, exercise, ?_, content, ?_,
      value, decoded, ⟨name, notBlank name named⟩, ?_, cursor, placed, baseline, read, rfl⟩
    · rw [built]
      exact located
    · rw [built]
      exact related
    · rw [built]
      exact spoken
    · rw [built]
      exact mapped
    · rw [built]
      exact shown
    · rw [Student.tryFrom, dif_pos (notBlank name named)]
      rfl
  · rw [Utf16.encode_of_decode shown, List.take_append_drop]
  · intro short
    exact List.drop_eq_nil_of_le short

/-- A report is accepted exactly if nothing in it was cut apart. -/
theorem accepted_iff (documented : Documented around) (earlier : List (Moment Uri))
    (moment : Moment Uri) {student : JsString}
    (notBlank : ∀ name, Utf16.decode student = some name → Str.trim name ≠ []) :
    Accepted moment.target.doc.text
        (reportText student (buildOpenFile around (run around .empty earlier) moment).1) ↔
      Transmittable around student moment := by
  have valid := @valid_run _ around _ valid_empty earlier
  exact ⟨transmittable_of_accepted valid, accepted_of_transmittable documented valid notBlank⟩

end Reports

theorem documented_unchanged (name : String) : Documented (unchanged name) := by
  constructor
  · intro _ _ _ hunk member
    cases member
  · intro _ _ _ _ _ hunk member
    cases member
  · intro _ _ _ hunk member
    cases member
  · rintro _ _ _ ⟨⟩
    exact ⟨Utf16.wellFormed_encode _, by decide⟩

theorem notBlank_alice : ∀ name, Utf16.decode (js "alice") = some name → Str.trim name ≠ [] := by
  intro name named
  rw [decode_js] at named
  cases named
  decide

theorem accepted_unchanged :
    Accepted (js "x")
      (reportText (js "alice") (buildOpenFile (unchanged "a.py") .empty (unchangedAt 0 0)).1) := by
  apply (@accepted_iff _ _ (documented_unchanged "a.py") [] (unchangedAt 0 0) (js "alice")
    notBlank_alice).mpr
  exact
    { student := Utf16.wellFormed_encode _
      path := by decide
      relativePath := Utf16.wellFormed_encode _
      language := Utf16.wellFormed_encode _
      exercise := nofun
      content := by decide
      caret := by
        rintro _ ⟨⟩
        decide }

/-- A text of one unit more than may be sent, that ends in an emoji. -/
def emojiAtLimit : Str :=
  List.replicate 199999 'x' ++ [Char.ofNat 0x1F600]

def emojiShown : Moment Unit :=
  { unchangedAt 0 0 with
    target := { (unchangedAt 0 0).target with
      doc := { (unchangedAt 0 0).target.doc with text := Utf16.encode emojiAtLimit } } }

theorem encode_replicate (count : Nat) :
    Utf16.encode (List.replicate count 'x') = List.replicate count 0x78 := by
  induction count with
  | zero => rfl
  | succ count ih =>
      rw [List.replicate_succ, Utf16.encode_cons, ih, List.replicate_succ]
      rfl

theorem splitsPair_emoji : Utf16.SplitsPair (Utf16.encode emojiAtLimit) MAX_CONTENT_CHARS := by
  have limit : MAX_CONTENT_CHARS = (List.replicate 199999 (0x78 : UInt16)).length + 1 := by
    rw [List.length_replicate]
    rfl
  have units : Utf16.encode [Char.ofNat 0x1F600] = [0xD83D, 0xDE00] := by decide
  refine ⟨0xD83D, ?_, by decide⟩
  rw [emojiAtLimit, Utf16.encode_append, encode_replicate, units, limit,
    List.take_length_add_append, List.take_succ_cons, List.take_zero, List.getLast?_concat]

/-- The emoji is cut in two, and the report is refused. -/
theorem not_accepted_emoji :
    Documented (unchanged "a.py") ∧
      ¬ Accepted (Utf16.encode emojiAtLimit)
        (reportText (js "alice") (buildOpenFile (unchanged "a.py") .empty emojiShown).1) := by
  refine ⟨documented_unchanged _, ?_⟩
  intro accepted
  have content := (@transmittable_of_accepted _ (unchanged "a.py") _ valid_empty emojiShown _
    accepted).content
  exact (Utf16.wellFormed_take_iff (Utf16.wellFormed_encode emojiAtLimit) _).mp content
    splitsPair_emoji

end Editor

end Hermione
