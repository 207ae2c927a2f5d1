import Hermione.TokenPieces
import Hermione.JoinedRuns

/-!
# The marks of a line are joined runs of its words

What the comparison gathers on either side are the bytes of the runs of words that
the script takes or gives, where those runs stand next to a word at all.  Joining the
byte ranges joins the runs.
-/

namespace Hermione

namespace Intraline

open Utf8 EditScripts JoinedRuns
open String (utf8Len)

/-- Whether an operation takes or gives anything. -/
def edits : Op → Bool
  | .equal _ _ _ => false
  | _ => true

/-- The runs of words that a script changes on one side of it. -/
def runsOf (index len : Op → Nat) (script : List Op) : List Run :=
  (script.filter edits).map fun op => ⟨index op, index op + len op⟩

def oldRuns (script : List Op) : List Run :=
  runsOf Op.oldIndex Op.oldLen script

def newRuns (script : List Op) : List Run :=
  runsOf Op.newIndex Op.newLen script

/-- Operations follow each other on one side. -/
def Walks (index len : Op → Nat) : Nat → List Op → Nat → Prop
  | start, [], stop => start = stop
  | start, op :: script, stop =>
      index op = start ∧ Walks index len (start + len op) script stop

theorem walks_of_leads {oldWords newWords : List Str} {i j m n : Nat} {script : List Op}
    (leads : Leads oldWords newWords i j script m n) :
    Walks Op.oldIndex Op.oldLen i script m ∧ Walks Op.newIndex Op.newLen j script n := by
  induction script generalizing i j with
  | nil => exact leads
  | cons op script ih =>
      obtain ⟨oldEq, newEq, _, rest⟩ := leads
      exact ⟨⟨oldEq, (ih rest).1⟩, newEq, (ih rest).2⟩

section Walks

variable {index len : Op → Nat}

theorem runsOf_cons (op : Op) (script : List Op) :
    runsOf index len (op :: script) =
      if edits op then ⟨index op, index op + len op⟩ :: runsOf index len script
      else runsOf index len script := by
  unfold runsOf
  rw [List.filter_cons]
  split <;> simp

theorem bounds_of_walks {start stop : Nat} {script : List Op}
    (walks : Walks index len start script stop) :
    start ≤ stop ∧ ∀ run ∈ runsOf index len script,
      start ≤ run.start ∧ run.start ≤ run.stop ∧ run.stop ≤ stop := by
  induction script generalizing start with
  | nil =>
      refine ⟨le_of_eq walks, ?_⟩
      intro run member
      cases member
  | cons op script ih =>
      obtain ⟨rfl, rest⟩ := walks
      obtain ⟨ordered, within⟩ := ih rest
      refine ⟨by omega, ?_⟩
      intro run member
      rw [runsOf_cons] at member
      split at member
      · rcases List.mem_cons.mp member with rfl | later
        · exact ⟨le_refl _, Nat.le_add_right _ _, ordered⟩
        · have := within run later
          omega
      · have := within run member
        omega

theorem ordered_of_walks {start stop : Nat} {script : List Op}
    (walks : Walks index len start script stop) : Ordered (runsOf index len script) := by
  induction script generalizing start with
  | nil => exact ⟨List.Pairwise.nil, by intro run member; cases member⟩
  | cons op script ih =>
      obtain ⟨rfl, rest⟩ := walks
      have later := ih rest
      rw [runsOf_cons]
      split
      · constructor
        · rw [List.pairwise_cons]
          exact ⟨fun run member => ((bounds_of_walks rest).2 run member).1, later.sorted⟩
        · intro run member
          rcases List.mem_cons.mp member with rfl | among
          · exact Nat.le_add_right _ _
          · exact later.proper run among
      · exact later

end Walks

/-- A run of words that stands next to one. -/
def placed (count : Nat) (run : Run) : Bool :=
  run.start < count && 0 < run.stop

/-- The bytes of a run of words. -/
def bytesOf (pieces : List Str) (run : Run) : ByteRange :=
  ⟨pieceEdge pieces run.start, pieceEdge pieces run.stop⟩

/-- The runs of words that the comparison gathers. -/
def gatheredRuns (pieces : List Str) (runs : List Run) : List Run :=
  runs.filter (placed pieces.length)

theorem gatheredRuns_append (pieces : List Str) (front back : List Run) :
    gatheredRuns pieces (front ++ back) =
      gatheredRuns pieces front ++ gatheredRuns pieces back :=
  List.filter_append ..

/-- The word of this index is whitespace. -/
def blankAt (pieces : List Str) (index : Nat) : Bool :=
  match pieces[index]? with
  | some piece => piece.all Str.isWhitespace
  | none => false

variable {words : WordDiff}

section Gather

variable {line : Str} {tokens : List ByteRange} {last : Option Kind} {pieces : List Str}

theorem Cut.span_eq (cut : Cut words line tokens last pieces) (run : Run)
    (within : run.stop ≤ pieces.length) :
    (span tokens run.start run.stop).toList = (gatheredRuns pieces [run]).map (bytesOf pieces) := by
  unfold span gatheredRuns
  by_cases inside : run.start < pieces.length
  · rw [cut.token_eq inside, Option.bind_some]
    by_cases empty : run.stop = 0
    · simp [placed, empty]
    · rw [if_neg empty, cut.token_eq (by omega), Option.map_some,
        Nat.sub_add_cancel (Nat.pos_of_ne_zero empty)]
      have stands : placed pieces.length run = true := by
        simp [placed, inside, Nat.pos_of_ne_zero empty]
      rw [List.filter_singleton, stands]
      rfl
  · rw [List.getElem?_eq_none (by rw [cut.length_eq]; exact not_lt.mp inside), Option.bind_none]
    simp [placed, inside]

end Gather

section Script

variable {old new : Str} {oldTokens newTokens : List ByteRange} {oldLast newLast : Option Kind}
variable {oldPieces newPieces : List Str}

/-- What the loop over the operations gathers. -/
theorem gather_eq (oldCut : Cut words old oldTokens oldLast oldPieces)
    (newCut : Cut words new newTokens newLast newPieces) {i j m n : Nat} {script : List Op}
    (leads : Leads oldPieces newPieces i j script m n) {gathered result : Gathered}
    (loop : gather old oldTokens newTokens gathered script = some result) :
    result.gone = gathered.gone ++
        (gatheredRuns oldPieces (oldRuns script)).map (bytesOf oldPieces) ∧
      result.added = gathered.added ++
        (gatheredRuns newPieces (newRuns script)).map (bytesOf newPieces) := by
  induction script generalizing i j gathered with
  | nil =>
      obtain rfl := Option.some.inj loop
      simp [gatheredRuns, oldRuns, newRuns, runsOf]
  | cons op script ih =>
      obtain ⟨_, _, fits, rest⟩ := leads
      have oldSpan := oldCut.span_eq ⟨op.oldIndex, op.oldIndex + op.oldLen⟩ fits.1
      have newSpan := newCut.span_eq ⟨op.newIndex, op.newIndex + op.newLen⟩ fits.2.1
      have edited (edit : edits op = true)
          (loop : gather old oldTokens newTokens
            { gathered with
              gone := gathered.gone ++
                (span oldTokens op.oldIndex (op.oldIndex + op.oldLen)).toList
              added := gathered.added ++
                (span newTokens op.newIndex (op.newIndex + op.newLen)).toList } script =
            some result) :
          result.gone = gathered.gone ++
              (gatheredRuns oldPieces (oldRuns (op :: script))).map (bytesOf oldPieces) ∧
            result.added = gathered.added ++
              (gatheredRuns newPieces (newRuns (op :: script))).map (bytesOf newPieces) := by
        obtain ⟨gone, added⟩ := ih rest loop
        have oldFirst : oldRuns (op :: script) =
            [⟨op.oldIndex, op.oldIndex + op.oldLen⟩] ++ oldRuns script := by
          rw [oldRuns, runsOf_cons, if_pos edit]
          rfl
        have newFirst : newRuns (op :: script) =
            [⟨op.newIndex, op.newIndex + op.newLen⟩] ++ newRuns script := by
          rw [newRuns, runsOf_cons, if_pos edit]
          rfl
        rw [gone, added, oldSpan, newSpan, oldFirst, newFirst, gatheredRuns_append,
          gatheredRuns_append, List.map_append, List.map_append, List.append_assoc,
          List.append_assoc]
        exact ⟨rfl, rfl⟩
      cases op with
      | equal oldIndex newIndex len =>
          have oldSkip : oldRuns (.equal oldIndex newIndex len :: script) = oldRuns script := rfl
          have newSkip : newRuns (.equal oldIndex newIndex len :: script) = newRuns script := rfl
          rw [oldSkip, newSkip]
          rw [gather] at loop
          split at loop
          · exact ih rest loop
          · obtain ⟨text, _, loop⟩ := Option.bind_eq_some_iff.mp loop
            obtain ⟨gone, added⟩ := ih rest loop
            exact ⟨gone, added⟩
      | delete | insert | replace => exact edited rfl loop

end Script

/-! ### Joining -/

theorem all_blank_iff {pieces : List Str} {first last : Nat} (within : last ≤ pieces.length) :
    (((pieces.take last).drop first).flatten.all Str.isWhitespace = true) ↔
      ∀ index, first ≤ index → index < last → blankAt pieces index = true := by
  rw [List.all_eq_true]
  constructor
  · intro all index late early
    have found := List.getElem?_eq_getElem (early.trans_le within)
    rw [blankAt, found]
    dsimp only
    rw [List.all_eq_true]
    intro char member
    apply all
    rw [List.mem_flatten]
    refine ⟨pieces[index], ?_, member⟩
    apply List.mem_of_getElem? (i := index - first)
    rw [List.getElem?_drop, Nat.add_sub_cancel' late, List.getElem?_take_of_lt early, found]
  · intro blanks char member
    obtain ⟨piece, among, inside⟩ := List.mem_flatten.mp member
    obtain ⟨offset, found⟩ := List.getElem?_of_mem among
    rw [List.getElem?_drop] at found
    have early : first + offset < last := by
      by_contra late
      rw [List.getElem?_eq_none (by rw [List.length_take]; omega)] at found
      cases found
    rw [List.getElem?_take_of_lt early] at found
    have blank := blanks (first + offset) (Nat.le_add_right _ _) early
    rw [blankAt, found] at blank
    exact List.all_eq_true.mp blank char inside

/-- What lies between two runs of words is whitespace exactly if the words there are. -/
theorem slice_between {pieces : List Str} {first second : Run}
    (ordered : first.stop ≤ second.start) (within : second.start ≤ pieces.length) :
    (slice pieces.flatten ⟨(bytesOf pieces first).stop, (bytesOf pieces second).start⟩).map
        (fun between => between.all Str.isWhitespace) =
      some (blankBetween (blankAt pieces) first second) := by
  change (slice pieces.flatten
    ⟨pieceEdge pieces first.stop, pieceEdge pieces second.start⟩).map _ = _
  rw [slice_pieces pieces ordered, Option.map_some, Option.some.injEq, Bool.eq_iff_iff,
    all_blank_iff within, blankBetween_iff]

theorem getLast_joined {blank : Nat → Bool} {runs : List Run} {last : Run}
    (ends : (joined blank runs).getLast? = some last) : ∃ run ∈ runs, last.stop = run.stop := by
  obtain ⟨group, among, rfl⟩ := mem_joined (List.mem_of_getLast? ends)
  have filled := List.ne_nil_of_mem_splitBy among
  refine ⟨group.getLast filled,
    (sublist_of_mem_splitBy among).subset (List.getLast_mem filled), ?_⟩
  simp [hull, List.getLast?_eq_some_getLast filled]

theorem joinFrom_eq {pieces : List Str} {done rest : List Run} (ordered : Ordered (done ++ rest))
    (within : ∀ run ∈ rest, run.stop ≤ pieces.length) :
    joinFrom pieces.flatten ((joined (blankAt pieces) done).map (bytesOf pieces))
        (rest.map (bytesOf pieces)) =
      some ((joined (blankAt pieces) (done ++ rest)).map (bytesOf pieces)) := by
  induction rest generalizing done with
  | nil => rw [List.append_nil]; rfl
  | cons run rest ih =>
      have step : joinRange pieces.flatten ((joined (blankAt pieces) done).map (bytesOf pieces))
          (bytesOf pieces run) =
            some ((joined (blankAt pieces) (done ++ [run])).map (bytesOf pieces)) := by
        unfold joinRange
        rw [joined_concat, List.getLast?_map]
        cases ends : (joined (blankAt pieces) done).getLast? with
        | none =>
            rw [List.getLast?_eq_none_iff.mp ends]
            rfl
        | some last =>
            obtain ⟨before, member, stopEq⟩ := getLast_joined ends
            have apart : last.stop ≤ run.start := by
              rw [stopEq]
              exact (List.pairwise_append.mp ordered.sorted).2.2 before member run
                List.mem_cons_self
            have inside : run.start ≤ pieces.length :=
              (ordered.proper run (by simp)).trans (within run List.mem_cons_self)
            have between := slice_between apart inside
            rw [Option.map_some]
            dsimp only
            obtain ⟨text, sliced, blankEq⟩ := Option.map_eq_some_iff.mp between
            rw [sliced, Option.map_some, blankEq]
            split
            · rw [List.map_append, List.map_dropLast]
              rfl
            · rw [List.map_append]
              rfl
      have next : done ++ run :: rest = (done ++ [run]) ++ rest := by simp
      rw [next] at ordered ⊢
      rw [List.map_cons, joinFrom, step, Option.bind_some]
      exact ih ordered fun other later => within other (List.mem_cons_of_mem _ later)

/-! ### The whole comparison -/

variable (words)

/-- The words of a line. -/
def lineWords (line : Str) : List Str :=
  ((tokens words line).mapM (slice line)).getD []

/-- The edit script between two lines. -/
def scriptOf (old new : Str) : List Op :=
  words.captureDiffSlices (lineWords words old) (lineWords words new)

theorem cut_lineWords (line : Str) :
    ∃ last, Cut words line (tokens words line) last (lineWords words line) := by
  obtain ⟨last, pieces, cut⟩ := cut_tokens words line
  refine ⟨last, ?_⟩
  rwa [lineWords, cut.mapM_slice]

theorem mapM_lineWords (line : Str) :
    (tokens words line).mapM (slice line) = some (lineWords words line) := by
  obtain ⟨last, cut⟩ := cut_lineWords words line
  exact cut.mapM_slice

/-- The marks of a side whose script changes these runs of words. -/
def marksOf (pieces : List Str) (runs : List Run) : List ByteRange :=
  (joined (blankAt pieces) (gatheredRuns pieces runs)).map (bytesOf pieces)

variable {words}

theorem leads_script (valid : words.Valid) (old new : Str) :
    Leads (lineWords words old) (lineWords words new) 0 0 (scriptOf words old new)
      (lineWords words old).length (lineWords words new).length :=
  valid _ _

theorem ordered_gatheredRuns {pieces : List Str} {runs : List Run} (ordered : Ordered runs) :
    Ordered (gatheredRuns pieces runs) :=
  ordered.sublist List.filter_sublist

theorem join_eq {line : Str} {pieces : List Str} {runs : List Run} (whole : pieces.flatten = line)
    (ordered : Ordered runs) (within : ∀ run ∈ runs, run.stop ≤ pieces.length) :
    join ((gatheredRuns pieces runs).map (bytesOf pieces)) line = some (marksOf pieces runs) := by
  have joins := @joinFrom_eq pieces [] (gatheredRuns pieces runs)
    (by simpa using ordered_gatheredRuns ordered)
    fun run member => within run (List.mem_of_mem_filter member)
  rw [whole] at joins
  exact joins

/-- What the comparison answers are the marks of the script's runs, and neither side's
leave nothing of the line. -/
theorem marks_eq (valid : words.Valid) {old new : Str} {marks : Changes}
    (found : changes words old new = some (some marks)) :
    marks.old = marksOf (lineWords words old) (oldRuns (scriptOf words old new)) ∧
      marks.new = marksOf (lineWords words new) (newRuns (scriptOf words old new)) ∧
      covers marks.old old = false ∧ covers marks.new new = false := by
  obtain ⟨oldLast, oldCut⟩ := cut_lineWords words old
  obtain ⟨newLast, newCut⟩ := cut_lineWords words new
  have leads := leads_script valid old new
  obtain ⟨oldWalks, newWalks⟩ := walks_of_leads leads
  unfold changes at found
  split at found
  · cases found
  · simp only [mapM_lineWords, Option.bind_eq_bind, Option.bind_some] at found
    obtain ⟨gathered, loop, found⟩ := Option.bind_eq_some_iff.mp found
    obtain ⟨gone, added⟩ := gather_eq oldCut newCut leads loop
    rw [List.nil_append] at gone added
    have oldJoin := join_eq oldCut.whole (ordered_of_walks oldWalks)
      fun run member => ((bounds_of_walks oldWalks).2 run member).2.2
    have newJoin := join_eq newCut.whole (ordered_of_walks newWalks)
      fun run member => ((bounds_of_walks newWalks).2 run member).2.2
    split at found
    · cases found
    · have oldEq : join gathered.gone old =
          some (marksOf (lineWords words old) (oldRuns (scriptOf words old new))) := by
        rw [gone]
        exact oldJoin
      have newEq : join gathered.added new =
          some (marksOf (lineWords words new) (newRuns (scriptOf words old new))) := by
        rw [added]
        exact newJoin
      rw [oldEq, newEq, Option.bind_some, Option.bind_some] at found
      split at found
      · cases found
      · next shows =>
          rw [Bool.or_eq_true, not_or, Bool.not_eq_true, Bool.not_eq_true] at shows
          obtain rfl := Option.some.inj (Option.some.inj found)
          exact ⟨rfl, rfl, shows.1, shows.2⟩

end Intraline

end Hermione
