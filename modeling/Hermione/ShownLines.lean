import Hermione.RepoPath
import Hermione.SolutionComparison

/-!
# The lines that a comparison numbers

The comparison splits a normalised text after every line end, also after a carriage
return that stands alone; the rows' numbers are looked up among the pieces between
newlines.  The two agree on the texts whose carriage returns all belong to line ends.
-/

namespace Hermione

open EditScripts

namespace Compare

/-- Every carriage return stands before a newline, or before a CRLF. -/
def returnsEnd : Str → Bool
  | [] => true
  | '\r' :: '\r' :: '\n' :: text => returnsEnd text
  | '\r' :: '\n' :: text => returnsEnd text
  | '\r' :: _ => false
  | _ :: text => returnsEnd text

/-- A line without a carriage return at its end. -/
def withoutReturn (line : Str) : Str :=
  if line.getLast? = some '\r' then line.dropLast else line

/-! ### The comparison's lines -/

/-- A text that ends with a newline, unless it is empty. -/
def ended (text : Str) : Str :=
  if text ≠ [] ∧ text.getLast? ≠ some '\n' then text ++ ['\n'] else text

/-- The lines of a text whose line ends are newlines already. -/
def linesOf (text : Str) : List Str :=
  (splitLines (ended text)).map withoutNewline

theorem lineTexts_eq (text : Str) : lineTexts text = linesOf (replaceCrlf text) :=
  rfl

theorem withoutNewline_cons {char : Char} {line : Str} (some : line ≠ []) :
    withoutNewline (char :: line) = char :: withoutNewline line := by
  obtain ⟨first, rest, rfl⟩ := List.exists_cons_of_ne_nil some
  unfold withoutNewline
  rw [List.getLast?_cons_cons]
  split <;> rfl

theorem withoutReturn_cons {char : Char} {line : Str} (some : line ≠ []) :
    withoutReturn (char :: line) = char :: withoutReturn line := by
  obtain ⟨first, rest, rfl⟩ := List.exists_cons_of_ne_nil some
  unfold withoutReturn
  rw [List.getLast?_cons_cons]
  split <;> rfl

/-- What a text is put behind does not change how it ends. -/
theorem ended_cons (char : Char) {text : Str} (some : text ≠ []) :
    ended (char :: text) = char :: ended text := by
  obtain ⟨first, rest, rfl⟩ := List.exists_cons_of_ne_nil some
  unfold ended
  rw [List.getLast?_cons_cons]
  split
  · next ends => rw [if_pos ⟨List.cons_ne_nil _ _, ends.2⟩]; rfl
  · next ends => rw [if_neg fun both => ends ⟨List.cons_ne_nil _ _, both.2⟩]

/-- Nor does how a text ends change how it begins. -/
theorem exists_ended_cons (char : Char) (text : Str) :
    ∃ rest, ended (char :: text) = char :: rest := by
  by_cases empty : text = []
  · unfold ended
    rw [empty]
    split
    · exact ⟨_, rfl⟩
    · exact ⟨_, rfl⟩
  · exact ⟨_, ended_cons char empty⟩

theorem splitLines_ne_nil {text : Str} (some : text ≠ []) : splitLines text ≠ [] := by
  intro none
  have whole := flatten_splitLines text
  rw [none] at whole
  exact some whole.symm

theorem linesOf_newline (text : Str) : linesOf ('\n' :: text) = [] :: linesOf text := by
  by_cases empty : text = []
  · rw [empty]
    rfl
  · unfold linesOf
    rw [ended_cons _ empty, splitLines, if_pos (.inl rfl)]
    · rfl
    · rintro _ ⟨⟩

theorem linesOf_return_newline (text : Str) :
    linesOf ('\r' :: '\n' :: text) = ['\r'] :: linesOf text := by
  by_cases empty : text = []
  · rw [empty]
    rfl
  · unfold linesOf
    rw [ended_cons _ (List.cons_ne_nil _ _), ended_cons _ empty, splitLines]
    rfl

theorem linesOf_single {char : Char} (newline : char ≠ '\n') : linesOf [char] = [[char]] := by
  by_cases carriage : char = '\r'
  · rw [carriage]
    rfl
  · unfold linesOf ended
    rw [if_pos ⟨List.cons_ne_nil _ _, by simpa using newline⟩, List.singleton_append, splitLines,
      if_neg (by tauto)]
    · rfl
    · rintro _ rfl _
      exact carriage rfl

/-- A carriage return that stands alone ends a line. -/
theorem linesOf_return {first : Char} {text : Str} (newline : first ≠ '\n') :
    linesOf ('\r' :: first :: text) = ['\r'] :: linesOf (first :: text) := by
  unfold linesOf
  obtain ⟨rest, starts⟩ := exists_ended_cons first text
  rw [ended_cons _ (List.cons_ne_nil _ _), starts, splitLines, if_pos (.inr rfl)]
  · rfl
  · rintro _ - ⟨⟩
    exact newline rfl

theorem linesOf_cons {char : Char} {text : Str} (some : text ≠ []) (newline : char ≠ '\n')
    (carriage : char ≠ '\r') :
    linesOf (char :: text) = (linesOf text).modifyHead (char :: ·) := by
  obtain ⟨first, rest, rfl⟩ := List.exists_cons_of_ne_nil some
  obtain ⟨_, starts⟩ := exists_ended_cons first rest
  unfold linesOf
  rw [ended_cons _ some, splitLines, if_neg (by tauto)]
  · cases pieces : splitLines (ended (first :: rest)) with
    | nil => exact absurd pieces (splitLines_ne_nil (by rw [starts]; exact List.cons_ne_nil _ _))
    | cons line lines =>
        have line_ne : line ≠ [] :=
          ne_nil_of_mem_splitLines (by rw [pieces]; exact List.mem_cons_self)
        rw [List.map_cons, List.map_cons, List.modifyHead_cons, withoutNewline_cons line_ne]
  · rintro _ rfl
    exact absurd rfl carriage

/-! ### The lines on screen -/

/-- A text's pieces, as the rows' numbers are looked up among them. -/
def shownLines (text : Str) : List Str :=
  (Str.split '\n' text).map withoutReturn

theorem shownLines_newline (text : Str) : shownLines ('\n' :: text) = [] :: shownLines text := by
  unfold shownLines
  rw [Str.split_cons, if_pos rfl]
  rfl

theorem shownLines_cons {char : Char} {text : Str} (newline : char ≠ '\n')
    (carriage : char ≠ '\r') :
    shownLines (char :: text) = (shownLines text).modifyHead (char :: ·) := by
  unfold shownLines
  rw [Str.split_cons, if_neg newline]
  cases pieces : Str.split '\n' text with
  | nil => exact absurd pieces (Str.split_ne_nil _ _)
  | cons piece rest =>
      rw [List.modifyHead_cons, List.map_cons, List.map_cons, List.modifyHead_cons]
      by_cases empty : piece = []
      · rw [empty]
        simp [withoutReturn, carriage]
      · rw [withoutReturn_cons empty]

theorem shownLines_append {first : Str} (whole : Str.split '\n' first = [first]) (text : Str) :
    shownLines (first ++ '\n' :: text) = withoutReturn first :: shownLines text := by
  unfold shownLines
  rw [Str.split_append, whole]
  rfl

/-- The first piece begins with the first character. -/
theorem exists_split_cons {char : Char} (text : Str) (newline : char ≠ '\n') :
    ∃ piece rest, Str.split '\n' (char :: text) = (char :: piece) :: rest := by
  rw [Str.split_cons, if_neg newline]
  cases pieces : Str.split '\n' text with
  | nil => exact absurd pieces (Str.split_ne_nil _ _)
  | cons piece rest => exact ⟨piece, rest, rfl⟩

theorem linesOf_ne_nil {text : Str} (some : text ≠ []) : linesOf text ≠ [] := by
  obtain ⟨first, rest, rfl⟩ := List.exists_cons_of_ne_nil some
  obtain ⟨_, starts⟩ := exists_ended_cons first rest
  unfold linesOf
  rw [starts, ne_eq, List.map_eq_nil_iff]
  exact splitLines_ne_nil (List.cons_ne_nil _ _)

theorem shownLines_ne_nil (text : Str) : shownLines text ≠ [] := by
  unfold shownLines
  rw [ne_eq, List.map_eq_nil_iff]
  exact Str.split_ne_nil _ _

/-- A carriage return that stands alone makes a line that is not on screen. -/
theorem not_prefix_of_return {text : Str} (newline : text.head? ≠ some '\n')
    (crlf : ¬ ['\r', '\n'] <+: text) :
    ¬ linesOf (replaceCrlf ('\r' :: text)) <+: shownLines ('\r' :: text) := by
  cases text with
  | nil => decide
  | cons first text =>
      have other : first ≠ '\n' := by simpa using newline
      have replaced : replaceCrlf (first :: text) = first :: replaceCrlf text := by
        rw [replaceCrlf]
        rintro rest rfl rfl
        exact crlf ⟨rest, rfl⟩
      have lone : replaceCrlf ('\r' :: first :: text) = '\r' :: first :: replaceCrlf text := by
        rw [replaceCrlf, replaced]
        rintro rest - ⟨⟩
        exact other rfl
      rw [lone, linesOf_return other]
      obtain ⟨piece, rest, pieces⟩ := exists_split_cons text other
      have shown : shownLines ('\r' :: first :: text) =
          ('\r' :: withoutReturn (first :: piece)) :: rest.map withoutReturn := by
        unfold shownLines
        rw [Str.split_cons, if_neg (by decide), pieces, List.modifyHead_cons, List.map_cons,
          withoutReturn_cons (List.cons_ne_nil _ _)]
      rw [shown, List.cons_prefix_cons]
      rintro ⟨same, more⟩
      have bare : withoutReturn (first :: piece) = [] := (List.cons.inj same).2.symm
      have single : first = '\r' ∧ piece = [] := by
        unfold withoutReturn at bare
        split at bare
        · next ends =>
            have none : piece = [] := by
              cases piece with
              | nil => rfl
              | cons second piece => cases bare
            rw [none] at ends
            exact ⟨Option.some.inj ends, none⟩
        · cases bare
      obtain ⟨rfl, rfl⟩ := single
      cases text with
      | nil =>
          cases pieces
          exact absurd more (by decide)
      | cons second text =>
          have inner : second ≠ '\n' := by
            rintro rfl
            exact crlf ⟨text, rfl⟩
          obtain ⟨piece, rest, inside⟩ := exists_split_cons text inner
          rw [Str.split_cons, if_neg (by decide), inside, List.modifyHead_cons] at pieces
          cases pieces

/-- The comparison's lines are those on screen exactly if no carriage return stands
alone. -/
theorem lineTexts_prefix_iff (text : Str) :
    lineTexts text <+: shownLines text ↔ returnsEnd text = true := by
  rw [lineTexts_eq]
  fun_induction returnsEnd text with
  | case1 => simp [linesOf, ended, replaceCrlf, splitLines]
  | case2 text ih =>
      have shown : shownLines ('\r' :: '\r' :: '\n' :: text) = ['\r'] :: shownLines text :=
        @shownLines_append ['\r', '\r'] rfl text
      have replaced : replaceCrlf ('\r' :: '\r' :: '\n' :: text) =
          '\r' :: '\n' :: replaceCrlf text := by
        rw [replaceCrlf, replaceCrlf]
        rintro _ - ⟨⟩
      rw [replaced, linesOf_return_newline, shown, List.cons_prefix_cons, ih]
      simp
  | case3 text ih =>
      have shown : shownLines ('\r' :: '\n' :: text) = [] :: shownLines text :=
        @shownLines_append ['\r'] rfl text
      rw [replaceCrlf, linesOf_newline, shown, List.cons_prefix_cons, ih]
      simp
  | case4 text before before' =>
      simp only [Bool.false_eq_true, iff_false]
      apply not_prefix_of_return
      · cases text with
        | nil => simp
        | cons first text =>
            rw [List.head?_cons, ne_eq, Option.some.injEq]
            rintro rfl
            exact before' text rfl
      · rintro ⟨rest, rfl⟩
        exact before rest rfl
  | case5 char text before before' carriage ih =>
      have replaced : replaceCrlf (char :: text) = char :: replaceCrlf text := by
        rw [replaceCrlf]
        rintro rest rfl _
        exact carriage rfl
      rw [replaced]
      by_cases newline : char = '\n'
      · rw [newline, linesOf_newline, shownLines_newline, List.cons_prefix_cons, ih]
        simp
      · rw [shownLines_cons newline carriage]
        by_cases empty : text = []
        · have own : returnsEnd text = true := by rw [empty]; rfl
          rw [own, empty, replaceCrlf, linesOf_single newline]
          simp [shownLines, Str.split, withoutReturn]
        · rw [linesOf_cons (mt replaceCrlf_eq_nil_iff.mp empty) newline carriage, ← ih]
          obtain ⟨line, lines, own⟩ :=
            List.exists_cons_of_ne_nil (linesOf_ne_nil (mt replaceCrlf_eq_nil_iff.mp empty))
          obtain ⟨piece, pieces, shown⟩ := List.exists_cons_of_ne_nil (shownLines_ne_nil text)
          rw [own, shown, List.modifyHead_cons, List.modifyHead_cons, List.cons_prefix_cons,
            List.cons_prefix_cons, List.cons.injEq]
          simp

/-! ### The buffer's side of the hunks -/

variable {similar : Similar}

/-- The lines of a hunk that are in the buffer. -/
def newTexts (hunk : Report.Hunk) : List Str :=
  hunk.lines.filterMap Report.DiffLine.newText

theorem newTexts_eq (hunk : Report.Hunk) : newTexts hunk = hunk.toPatch.newSide := by
  unfold newTexts EditScripts.Hunk.newSide Report.Hunk.toPatch
  dsimp only
  rw [List.filterMap_map]
  congr 1
  funext line
  cases line <;> rfl

theorem newSide_of_describes {α : Type*} {old new : List α} {i j : Nat}
    {hunks : List (EditScripts.Hunk α)} (describes : Describes old new i j hunks) :
    ∀ hunk ∈ hunks, ∃ start, hunk.newStart = start + 1 ∧
      segment new start hunk.newSide.length = hunk.newSide := by
  induction hunks generalizing i j with
  | nil =>
      intro hunk none
      cases none
  | cons hunk hunks ih =>
      obtain ⟨gap, -, newStart, -, -, -, newSide, rest⟩ := describes
      rw [List.forall_mem_cons]
      exact ⟨⟨j + gap, newStart, newSide⟩, ih rest⟩

/-- The hunks' lines are the buffer's from where they start, whatever the reference. -/
theorem newTexts_hunks (documented : similar.Documented) {reference buffer : Str}
    {hunk : Report.Hunk} (member : hunk ∈ hunks similar reference buffer) :
    ∃ start, hunk.newStart = start + 1 ∧
      segment (lineTexts buffer) start (newTexts hunk).length = newTexts hunk := by
  unfold hunks at member
  simp only [documented.tokens] at member
  obtain ⟨group, listed, made⟩ := List.mem_filterMap.mp member
  obtain ⟨first, starts, made⟩ := Option.bind_eq_some_iff.mp made
  obtain ⟨oldStart, -, made⟩ := Option.bind_eq_some_iff.mp made
  obtain ⟨newStart, fits, rfl⟩ := Option.map_eq_some_iff.mp made
  have number : newStart = first.newIndex + 1 := by
    unfold u32TryFrom at fits
    split at fits
    · exact (Option.some.inj fits).symm
    · cases fits
  have grouped := documented.grouped (splitLines (normalize reference))
    (splitLines (normalize buffer))
  obtain ⟨start, starts', newSide⟩ := newSide_of_describes grouped.describes _
    (List.mem_filterMap.mpr ⟨group, listed, by rw [hunkOf, starts, Option.map_some]⟩)
  have texts : newTexts
      { oldStart := oldStart, newStart := newStart
        lines := (group.flatMap (changesOf (splitLines (normalize reference))
          (splitLines (normalize buffer)))).map fun change =>
            Report.DiffLine.ofChange (change.map (Str.trimEndMatches '\n')) } =
      ((group.flatMap (changesOf (splitLines (normalize reference))
        (splitLines (normalize buffer)))).filterMap Change.newSide).map
          (Str.trimEndMatches '\n') := by
    unfold newTexts
    dsimp only
    rw [List.filterMap_map, List.map_filterMap]
    apply List.filterMap_congr
    intro change _
    cases change <;> rfl
  refine ⟨start, number.trans starts', ?_⟩
  rw [texts, List.length_map, ← map_trimEndMatches, segment_map]
  exact congrArg (List.map (Str.trimEndMatches '\n')) newSide

/-! ### The rows -/

/-- What a filter keeps stands where as many before it are kept. -/
theorem getElem?_filterMap_iff {α β : Type*} {f : α → Option β} {list : List α} {place : Nat}
    {value : β} :
    (list.filterMap f)[place]? = some value ↔
      ∃ (index : Nat) (entry : α), list[index]? = some entry ∧ f entry = some value ∧
        ((list.take index).countP fun entry => (f entry).isSome) = place := by
  induction list generalizing place with
  | nil => simp
  | cons first list ih =>
      have later : (∃ (index : Nat) (entry : α), (first :: list)[index]? = some entry ∧
          f entry = some value ∧
          (((first :: list).take index).countP fun entry => (f entry).isSome) = place) ↔
          (f first = some value ∧ place = 0) ∨ ∃ (index : Nat) (entry : α),
            list[index]? = some entry ∧ f entry = some value ∧
              ((list.take index).countP fun entry => (f entry).isSome) +
                (if (f first).isSome then 1 else 0) = place := by
        constructor
        · rintro ⟨index, entry, found, made, before⟩
          cases index with
          | zero =>
              cases found
              exact .inl ⟨made, before.symm⟩
          | succ index =>
              rw [List.take_succ_cons, List.countP_cons] at before
              exact .inr ⟨index, entry, found, made, before⟩
        · rintro (⟨made, rfl⟩ | ⟨index, entry, found, made, before⟩)
          · exact ⟨0, first, rfl, made, rfl⟩
          · refine ⟨index + 1, entry, found, made, ?_⟩
            rw [List.take_succ_cons, List.countP_cons, before]
      rw [later, List.filterMap_cons]
      cases kept : f first with
      | none =>
          dsimp only
          rw [ih]
          simp
      | some other =>
          dsimp only
          cases place with
          | zero => simp [eq_comm]
          | succ place =>
              rw [List.getElem?_cons_succ, ih]
              simp

variable {syntect : Syntect} {colour : Option (Colour syntect)} {hunk : Report.Hunk}
  {drawn : Hunk}

/-- A drawn row's line, and how many before it are in the buffer. -/
theorem exists_line (shows : Hunk.Shows colour hunk drawn) {index : Nat} {row : Row}
    (found : drawn.rows[index]? = some row) :
    ∃ line, hunk.lines[index]? = some line ∧ row.spans.text = line.text ∧
      row.newNumber = line.newText.map fun _ => hunk.newStart +
        (hunk.lines.take index).countP fun line => line.newText.isSome := by
  have early : index < hunk.lines.length :=
    shows.length ▸ (List.getElem?_eq_some_iff.mp found).1
  have each (place : Nat) : (drawn.rows[place]?).map Row.isRemoved =
      (hunk.lines[place]?).map Report.DiffLine.isRemoved := by
    cases line : hunk.lines[place]? with
    | none =>
        have late : drawn.rows[place]? = none := by
          rw [List.getElem?_eq_none_iff, shows.length]
          exact List.getElem?_eq_none_iff.mp line
        rw [late]
        rfl
    | some line =>
        obtain ⟨row, found, about⟩ := shows.row place _ line
        rw [found, Option.map_some, Option.map_some, about.removed]
  have signs : drawn.rows.map Row.isRemoved = hunk.lines.map Report.DiffLine.isRemoved := by
    apply List.ext_getElem?
    intro place
    rw [List.getElem?_map, List.getElem?_map, each]
  have inBuffer (line : Report.DiffLine) : line.newText.isSome = !line.isRemoved := by
    cases line <;> rfl
  obtain ⟨row', found', about⟩ := shows.row index _ (List.getElem?_eq_getElem early)
  cases Option.some.inj (found.symm.trans found')
  refine ⟨_, List.getElem?_eq_getElem early, about.text, ?_⟩
  simp only [inBuffer]
  rw [about.newNumber, countP_not_take_eq signs index]

theorem text_of_newText {line : Report.DiffLine} {text : Str} (own : line.newText = some text) :
    line.text = text := by
  cases line with
  | context _ | added _ => exact Option.some.inj own
  | removed _ => cases own

/-- A numbered row shows the line of the hunk's buffer side that it numbers. -/
theorem text_of_newNumber (shows : Hunk.Shows colour hunk drawn) {row : Row}
    (listed : row ∈ drawn.rows) {number : Nat} (numbered : row.newNumber = some number) :
    hunk.newStart ≤ number ∧ (newTexts hunk)[number - hunk.newStart]? = some row.spans.text := by
  obtain ⟨index, found⟩ := List.mem_iff_getElem?.mp listed
  obtain ⟨line, there, text, number'⟩ := exists_line shows found
  rw [numbered] at number'
  obtain ⟨own, kept, rfl⟩ := Option.map_eq_some_iff.mp number'.symm
  constructor
  · omega
  · rw [Nat.add_sub_cancel_left, text, text_of_newText kept]
    exact getElem?_filterMap_iff.mpr ⟨index, line, there, kept, rfl⟩

/-- And each line of that side has a row. -/
theorem exists_row (shows : Hunk.Shows colour hunk drawn) {place : Nat} {text : Str}
    (found : (newTexts hunk)[place]? = some text) :
    ∃ row ∈ drawn.rows, row.newNumber = some (hunk.newStart + place) ∧ row.spans.text = text := by
  obtain ⟨index, line, there, kept, rfl⟩ := getElem?_filterMap_iff.mp found
  obtain ⟨row, drawing, -⟩ := shows.row index line there
  obtain ⟨line', there', text', number⟩ := exists_line shows drawing
  cases Option.some.inj (there.symm.trans there')
  rw [kept, Option.map_some] at number
  exact ⟨row, List.mem_of_getElem? drawing, number, text'.trans (text_of_newText kept)⟩

/-! ### An empty reference -/

/-- What describes a list in terms of nothing has all of it, and nothing else. -/
theorem describes_nil {α : Type*} {new : List α} {i j : Nat} {hunks : List (EditScripts.Hunk α)}
    (describes : Describes [] new i j hunks) :
    (hunks.map fun hunk => hunk.changes.length).sum ≤ new.length - j ∧
      ∀ place, j ≤ place → place < new.length → ∃ hunk ∈ hunks, ∃ start,
        hunk.newStart = start + 1 ∧ start ≤ place ∧ place < start + hunk.newSide.length := by
  induction hunks generalizing i j with
  | nil =>
      have rest : new.drop j = [] := describes.symm.trans List.drop_nil
      have short : new.length ≤ j := List.drop_eq_nil_iff.mp rest
      constructor
      · exact Nat.zero_le _
      · intro place late early
        omega
  | cons hunk hunks ih =>
      obtain ⟨gap, -, newStart, within, -, oldSide, newSide, rest⟩ := describes
      have none : gap = 0 := by
        rw [List.length_nil] at within
        omega
      rw [none, Nat.add_zero] at newStart newSide rest
      have bare : hunk.oldSide = [] := by
        rw [← oldSide]
        simp [EditScripts.segment]
      have all : hunk.changes.length = hunk.newSide.length := by
        have each : ∀ change ∈ hunk.changes, change.oldSide = Option.none := by
          simpa [EditScripts.Hunk.oldSide, List.filterMap_eq_nil_iff] using bare
        unfold EditScripts.Hunk.newSide
        rw [List.length_filterMap_eq_countP, eq_comm, List.countP_eq_length]
        intro change member
        have added := each change member
        cases change with
        | context value | removed value => cases added
        | added value => rfl
      have long : hunk.newSide.length ≤ new.length - j := by
        have short := congrArg List.length newSide
        unfold EditScripts.segment at short
        rw [List.length_take, List.length_drop] at short
        omega
      obtain ⟨total, covered⟩ := ih rest
      constructor
      · rw [List.map_cons, List.sum_cons, all]
        omega
      · intro place late early
        by_cases here : place < j + hunk.newSide.length
        · exact ⟨hunk, List.mem_cons_self, j, newStart, late, here⟩
        · obtain ⟨other, member, start⟩ := covered place (by omega) early
          exact ⟨other, List.mem_cons_of_mem _ member, start⟩

end Compare

open Compare

/-- The rows' numbers in the buffer are those of their own lines. -/
def RowsNameLines (text : Text) (diff : Diff) : Prop :=
  ∀ drawn ∈ diff.hunks, ∀ row ∈ drawn.rows, ∀ number, row.newNumber = some number →
    0 < number ∧ ∃ line, text.lines[number - 1]? = some line ∧
      row.spans.text = withoutReturn line

/-- Whatever a file is compared with, the rows' numbers name its lines. -/
def NamesLines (similar : Similar) (words : WordDiff) (syntect : Syntect) (file : File) : Prop :=
  ∀ reference diff, file.comparedWith similar words syntect reference = some (.differs diff) →
    RowsNameLines file.text diff

theorem exists_mem_of_forall₂ {α β : Type*} {R : α → β → Prop} {first : List α} {second : List β}
    (all : List.Forall₂ R first second) {value : β} (member : value ∈ second) :
    ∃ other ∈ first, R other value := by
  induction all with
  | nil => cases member
  | cons related _ ih =>
      rcases List.mem_cons.mp member with rfl | later
      · exact ⟨_, List.mem_cons_self, related⟩
      · obtain ⟨other, among, related⟩ := ih later
        exact ⟨other, List.mem_cons_of_mem _ among, related⟩

section Names

variable {similar : Similar} (documented : similar.Documented) {words : WordDiff}
  (valid : words.Valid) {syntect : Syntect} {file : File}

include valid in
/-- The differences that are answered are those of the comparison's hunks. -/
theorem shows_of_comparedWith {reference : Str} {diff : Diff}
    (compared : file.comparedWith similar words syntect reference = some (.differs diff)) :
    Diff.Shows (file.colour syntect) (hunks similar reference file.text.content) diff := by
  unfold File.comparedWith at compared
  split at compared
  · cases compared
  · dsimp only at compared
    split at compared
    · cases compared
    · obtain ⟨made, shown, shows⟩ := Diff.new_shows valid
        (hunks similar reference file.text.content) (file.colour syntect)
      rw [shown] at compared
      cases compared
      exact shows

include documented in
/-- A numbered row shows the comparison's line of that number. -/
theorem lineTexts_of_row {colour : Option (Colour syntect)} {reference : Str} {diff : Diff}
    (shows : Diff.Shows colour (hunks similar reference file.text.content) diff) {drawn : Hunk}
    (among : drawn ∈ diff.hunks) {row : Row} (listed : row ∈ drawn.rows) {number : Nat}
    (numbered : row.newNumber = some number) :
    0 < number ∧ (lineTexts file.text.content)[number - 1]? = some row.spans.text := by
  obtain ⟨front, back, parts, drawing, -⟩ := shows.kept
  obtain ⟨hunk, member, shown⟩ := exists_mem_of_forall₂ drawing among
  have kept : hunk ∈ hunks similar reference file.text.content := by
    rw [parts]
    exact List.mem_append_left _ member
  obtain ⟨start, starts, texts⟩ := newTexts_hunks documented kept
  obtain ⟨late, found⟩ := text_of_newNumber shown listed numbered
  rw [starts] at late found
  have place : start + (number - (start + 1)) = number - 1 := by omega
  constructor
  · omega
  · rw [← texts, EditScripts.segment, List.getElem?_take] at found
    split at found
    · rw [List.getElem?_drop, place] at found
      exact found
    · cases found

include documented valid

theorem namesLines_of_returnsEnd (ends : returnsEnd file.text.content = true) :
    NamesLines similar words syntect file := by
  intro reference diff compared drawn among row listed number numbered
  have shows := shows_of_comparedWith valid compared
  obtain ⟨positive, text⟩ := lineTexts_of_row documented shows among listed numbered
  refine ⟨positive, ?_⟩
  have screen := (lineTexts_prefix_iff file.text.content).mpr ends
  obtain ⟨early, own⟩ := List.getElem?_eq_some_iff.mp text
  have shown := List.prefix_iff_getElem?.mp screen _ early
  rw [own, shownLines, List.getElem?_map] at shown
  obtain ⟨line, found, same⟩ := Option.map_eq_some_iff.mp shown
  exact ⟨line, found, same.symm⟩

/-- Against an empty reference, every line of the buffer is a row. -/
theorem returnsEnd_of_namesLines (whole : file.text.truncated = false)
    (few : (lineTexts file.text.content).length ≤ maxRows)
    (names : NamesLines similar words syntect file) : returnsEnd file.text.content = true := by
  rw [← lineTexts_prefix_iff, List.prefix_iff_getElem?]
  intro place early
  have differ : normalize [] ≠ normalize file.text.content := by
    intro same
    have none : lineTexts file.text.content = [] := by
      rw [lineTexts, ← same]
      rfl
    rw [none] at early
    cases early
  obtain ⟨diff, compared, shows⟩ := exists_differs documented valid whole differ
  have bounded : (splitLines (normalize file.text.content)).length + 1 < 2 ^ 32 :=
    lines_lt file.text
  obtain ⟨total, covered⟩ := describes_nil
    (describes_hunks documented [] file.text.content (by decide) bounded)
  obtain ⟨patch, listed, start, starts, late, inside⟩ :=
    covered place (Nat.zero_le place) early
  obtain ⟨hunk, member, rfl⟩ := List.mem_map.mp listed
  rw [← newTexts_eq] at inside
  -- All hunks are within the budget.
  obtain ⟨front, back, parts, drawing, fits, -, overflow⟩ := shows.kept
  have rows : rowCount (hunks similar [] file.text.content) ≤ maxRows := by
    rw [List.map_map] at total
    have same : rowCount (hunks similar [] file.text.content) =
        ((hunks similar [] file.text.content).map
          ((fun hunk => hunk.changes.length) ∘ Report.Hunk.toPatch)).sum := by
      unfold rowCount Report.Hunk.toPatch
      simp [Function.comp_def]
    omega
  have everything : back = [] := by
    cases back with
    | nil => rfl
    | cons first rest =>
        have beyond := overflow first rest rfl
        rw [parts] at rows
        unfold rowCount at rows beyond
        rw [List.map_append, List.sum_append, List.map_cons, List.sum_cons] at rows
        omega
  rw [everything, List.append_nil] at parts
  rw [parts] at member
  obtain ⟨drawn, among, shown⟩ := exists_mem_of_forall₂ drawing.flip member
  have number : hunk.newStart = start + 1 := starts
  obtain ⟨row, among', numbered, text⟩ := exists_row shown
    (List.getElem?_eq_getElem (l := newTexts hunk) (i := place - start) (by omega))
  obtain ⟨-, own⟩ := lineTexts_of_row documented shows among among' numbered
  obtain ⟨-, line, found, same⟩ := names [] diff compared drawn among row among' _ numbered
  have place' : hunk.newStart + (place - start) - 1 = place := by omega
  rw [place'] at own found
  rw [List.getElem?_eq_getElem early, Option.some.injEq] at own
  rw [own, same]
  unfold shownLines
  rw [List.getElem?_map]
  exact congrArg (Option.map withoutReturn) found

end Names

/-- The rows' numbers name the buffer's lines, whatever the reference, where every
carriage return belongs to a line end; and, in a buffer that is drawn whole, only there. -/
theorem namesLines_iff {similar : Similar} (documented : similar.Documented) {words : WordDiff}
    (valid : words.Valid) (syntect : Syntect) (file : File)
    (whole : file.text.truncated = false) :
    (returnsEnd file.text.content = true → NamesLines similar words syntect file) ∧
      ((lineTexts file.text.content).length ≤ maxRows →
        (NamesLines similar words syntect file ↔ returnsEnd file.text.content = true)) :=
  ⟨namesLines_of_returnsEnd documented valid, fun few =>
    ⟨returnsEnd_of_namesLines documented valid whole few,
      namesLines_of_returnsEnd documented valid⟩⟩

/-- Three lines, one of which has a carriage return where it ends, against the first. -/
theorem namesLines_iff_program :
    ∃ diff, (wholeFile programText).comparedWith leadingSimilar leadingWords noGrammars
        "a = 1\n".toList = some (.differs diff) ∧ 0 < diff.added + diff.removed ∧
      RowsNameLines programText diff := by
  have names := ((namesLines_iff leadingSimilar_documented leadingWords_valid noGrammars
    (wholeFile programText) rfl).2 (by decide)).mpr (by decide)
  have differ : normalize "a = 1\n".toList ≠
      normalize (wholeFile programText).text.content := by decide
  obtain ⟨diff, compared, shows⟩ :=
    exists_differs leadingSimilar_documented leadingWords_valid rfl differ
  exact ⟨diff, compared, exists_counted leadingSimilar_documented differ shows,
    names _ diff compared⟩

/-- A carriage return in the middle of a line. -/
def progressText : Text :=
  { content := "a\rb\nc".toList, truncated := false, capped := by decide }

/-- The row of its second line has the number of the third. -/
theorem not_namesLines_progress :
    ¬ NamesLines leadingSimilar leadingWords noGrammars (wholeFile progressText) := by
  intro names
  have ends := returnsEnd_of_namesLines leadingSimilar_documented leadingWords_valid rfl
    (by decide) names
  exact absurd ends (by decide)

end Hermione
