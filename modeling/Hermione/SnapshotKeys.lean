import Hermione.OpenFile

/-!
# Keys of snapshots

While the key of what is on screen is unchanged, the editor sends the caret
alone.  A key names the file, the version of the buffer, whether it is dirty, its
language and the commit, but not the document that the version belongs to, nor
whether there is a repository, nor what git answers.
-/

namespace Hermione

namespace Editor

variable {Uri : Type} {around : Surroundings Uri}

/-! ### The caches -/

/-- What is kept of a commit is what the commit holds. -/
def Exact (around : Surroundings Uri) (cache : BaselineCache) : Prop :=
  ∀ file entry text, (file, entry) ∈ cache → entry.committed = some text →
    around.textAt entry.commit file = some text

/-- The last comparison is that of its texts. -/
def Compared (around : Surroundings Uri) (memo : DiffMemo) : Prop :=
  ∀ last, memo = some last → ∃ old, around.textAt last.commit last.file = some old ∧
    last.hunks = diffHunks around old last.buffer

structure Caches.Valid (around : Surroundings Uri) (caches : Caches) : Prop where
  baselines : Exact around caches.baselines
  diffs : Compared around caches.diffs

theorem exact_set {cache : BaselineCache} (faithful : Exact around cache) {file : JsString}
    {entry : Entry} (holds : ∀ text, entry.committed = some text →
      around.textAt entry.commit file = some text) :
    Exact around (cache.set file entry) := by
  intro other kept text member own
  rcases List.mem_append.mp member with before | added
  · exact faithful other kept text (List.mem_filter.mp before).1 own
  · cases List.mem_singleton.mp added
    exact holds text own

theorem mem_of_lookup {cache : BaselineCache} {file : JsString} {entry : Entry}
    (hit : cache.lookup file = some entry) : (file, entry) ∈ cache := by
  induction cache with
  | nil => cases hit
  | cons first cache ih =>
      rw [List.lookup_cons] at hit
      split at hit
      · next same =>
          rw [beq_iff_eq] at same
          cases hit
          rw [same]
          exact List.mem_cons_self
      · exact List.mem_cons_of_mem _ (ih hit)

theorem shown_exact {moment : Moment Uri} {commit text : JsString}
    (head : moment.repository = some (some commit)) (answer : shown around moment = some text) :
    around.textAt commit (around.fsPath moment.target.uri) = some text := by
  unfold shown at answer
  split at answer
  · cases answer
  · rwa [head] at answer

/-- What is found of a commit is what it holds, and what is kept stays so. -/
theorem found_exact {cache : BaselineCache} (faithful : Exact around cache) {moment : Moment Uri}
    {commit : JsString} (head : moment.repository = some (some commit)) :
    (∀ text, (found around cache moment (some commit)).1 = some text →
      around.textAt commit (around.fsPath moment.target.uri) = some text) ∧
    Exact around (found around cache moment (some commit)).2 := by
  unfold found BaselineCache.get
  dsimp only
  split
  · next hit kept =>
      obtain ⟨hit?, good⟩ := Option.filter_eq_some_iff.mp kept
      rw [decide_eq_true_eq] at good
      have holds := fun text => faithful _ _ text (mem_of_lookup hit?)
      rw [good.1] at holds
      refine ⟨holds, exact_set faithful ?_⟩
      rw [good.1]
      exact holds
  · have stored : Exact around (cache.set (around.fsPath moment.target.uri)
        { commit, committed := shown around moment, time := moment.answered }) :=
      exact_set faithful fun text => shown_exact head
    refine ⟨fun text => shown_exact head, ?_⟩
    split
    · exact fun file entry text member => stored file entry text (List.mem_of_mem_tail member)
    · exact stored

/-- The comparison that is answered with is that of the texts at hand. -/
theorem memo_exact {memo : DiffMemo} (compared : Compared around memo)
    {file commit buffer old : JsString} (holds : around.textAt commit file = some old) :
    (memo.get file commit buffer (diffHunks around old buffer)).1 = diffHunks around old buffer ∧
      Compared around (memo.get file commit buffer (diffHunks around old buffer)).2 := by
  have fresh : Compared around
      (some { file, commit, buffer, hunks := diffHunks around old buffer }) := by
    rintro last ⟨⟩
    exact ⟨old, holds, rfl⟩
  unfold DiffMemo.get
  split
  · next last =>
      split
      · next same =>
          obtain ⟨other, held, hunks⟩ := compared last rfl
          rw [same.1, same.2.1, holds] at held
          cases held
          rw [same.2.2] at hunks
          exact ⟨hunks, compared⟩
      · exact ⟨rfl, fresh⟩
  · exact ⟨rfl, fresh⟩

/-! ### One report -/

/-- There is nothing to compare the buffer with. -/
def Incomparable (moment : Moment Uri) : Prop :=
  moment.target.cell = true ∨ moment.repository = none

instance (moment : Moment Uri) : Decidable (Incomparable moment) :=
  inferInstanceAs (Decidable (_ ∨ _))

/-- The committed text at hand: as git shows it, or as it is believed to be. -/
def onHand (around : Surroundings Uri) (cache : BaselineCache) (moment : Moment Uri) :
    Option JsString :=
  (moment.repository.bind id).bind fun commit => (found around cache moment (some commit)).1

/-- What the last commit can say about a file. -/
theorem committed_cases {cache : BaselineCache} (faithful : Exact around cache)
    (moment : Moment Uri) :
    ∃ kept, Exact around kept ∧
      ((moment.repository = none ∧ committed around cache moment = (.noRepo, kept)) ∨
        (moment.repository ≠ none ∧ onHand around cache moment = none ∧
          committed around cache moment = (.absent, kept)) ∨
        ∃ commit old, moment.repository = some (some commit) ∧
          onHand around cache moment = some old ∧
          around.textAt commit (around.fsPath moment.target.uri) = some old ∧
          committed around cache moment = (.text old commit, kept)) := by
  unfold committed onHand
  rcases head : moment.repository with _ | _ | commit
  · exact ⟨cache, faithful, .inl ⟨rfl, rfl⟩⟩
  · refine ⟨cache, faithful, .inr (.inl ⟨nofun, rfl, ?_⟩)⟩
    dsimp only
    unfold found BaselineCache.get
    cases shown around moment <;> rfl
  · obtain ⟨holds, kept⟩ := found_exact faithful head
    refine ⟨_, kept, .inr ?_⟩
    dsimp only [Option.bind_some, id_eq]
    rcases answer : found around cache moment (some commit) with ⟨text, after⟩
    rw [answer] at holds
    cases text with
    | none => exact .inl ⟨nofun, rfl, rfl⟩
    | some old => exact .inr ⟨commit, old, rfl, rfl, holds old rfl, rfl⟩

/-- The baseline depends on the caches only in what git is believed to hold. -/
theorem baselineFor_spec {caches : Caches} (valid : caches.Valid around) (moment : Moment Uri) :
    (baselineFor around caches moment).1 =
        (if Incomparable moment then .none
        else
          match onHand around caches.baselines moment with
          | none => .untracked
          | some old => .head (diffHunks around old moment.target.doc.text)) ∧
      (baselineFor around caches moment).2.Valid around := by
  unfold baselineFor Incomparable
  by_cases cell : moment.target.cell = true
  · simp [cell, valid]
  · obtain ⟨kept, faithful, ⟨head, said⟩ | ⟨head, none, said⟩ |
      ⟨commit, old, head, some, holds, said⟩⟩ :=
      committed_cases valid.baselines moment
    · simp only [cell, said, head, or_true, if_true]
      exact ⟨rfl, faithful, valid.diffs⟩
    · simp only [cell, said, head, none, Bool.false_eq_true, or_self, if_false]
      exact ⟨trivial, faithful, valid.diffs⟩
    · obtain ⟨hunks, compared⟩ := @memo_exact _ _ _ valid.diffs
        (around.fsPath moment.target.uri) commit moment.target.doc.text old holds
      simp only [cell, said, head, some, reduceCtorEq, or_self, if_false, hunks]
      exact ⟨trivial, faithful, compared⟩

theorem valid_empty : Caches.empty.Valid around :=
  ⟨fun _ _ _ member => absurd member List.not_mem_nil, fun _ none => nomatch none⟩

theorem valid_buildOpenFile {caches : Caches} (valid : caches.Valid around)
    (moment : Moment Uri) : (buildOpenFile around caches moment).2.Valid around := by
  unfold buildOpenFile
  dsimp only
  split
  · exact valid
  · exact (baselineFor_spec valid moment).2

theorem valid_run {caches : Caches} (valid : caches.Valid around) (moments : List (Moment Uri)) :
    (run around caches moments).Valid around := by
  induction moments generalizing caches with
  | nil => exact valid
  | cons moment moments ih => exact ih (valid_buildOpenFile valid moment)

/-- The whole report of a moment. -/
theorem buildOpenFile_eq {caches : Caches} (valid : caches.Valid around) (moment : Moment Uri) :
    (buildOpenFile around caches moment).1 =
      { path := around.fsPath moment.target.uri
        relativePath := (around.locate moment.target.uri).relativePath
        language := moment.target.doc.languageId
        exercise := (around.locate moment.target.uri).exercise
        cursor := moment.target.active.map fun caret =>
          { line := caret.line + 1, character := caret.character + 1 }
        dirty := moment.target.doc.isDirty
        content := moment.target.doc.text.take MAX_CONTENT_CHARS
        truncated := MAX_CONTENT_CHARS < moment.target.doc.text.length
        baseline :=
          if MAX_CONTENT_CHARS < moment.target.doc.text.length ∨ Incomparable moment then .none
          else
            match onHand around caches.baselines moment with
            | none => .untracked
            | some old => .head (diffHunks around old moment.target.doc.text) } := by
  unfold buildOpenFile
  dsimp only
  by_cases long : MAX_CONTENT_CHARS < moment.target.doc.text.length
  · simp [long]
  · simp only [long, if_false, false_or, decide_false]
    rw [(baselineFor_spec valid moment).1, List.take_of_length_le (Nat.le_of_not_lt long)]

/-! ### The key -/

/-- A bar that comes first on both sides separates the same. -/
theorem append_bar_inj {Value : Type*} {bar : Value} {first second rest more : List Value}
    (one : bar ∉ first) (two : bar ∉ second)
    (same : first ++ bar :: rest = second ++ bar :: more) : first = second ∧ rest = more := by
  induction first generalizing second with
  | nil =>
      cases second with
      | nil => simpa using same
      | cons other second =>
          simp only [List.nil_append, List.cons_append, List.cons.injEq] at same
          exact absurd (same.1 ▸ List.mem_cons_self) two
  | cons value first ih =>
      cases second with
      | nil =>
          simp only [List.nil_append, List.cons_append, List.cons.injEq] at same
          exact absurd (same.1 ▸ List.mem_cons_self) one
      | cons other second =>
          simp only [List.cons_append, List.cons.injEq] at same
          obtain ⟨rfl, same⟩ := same
          obtain ⟨rfl, rfl⟩ := ih (mt (List.mem_cons_of_mem _) one)
            (mt (List.mem_cons_of_mem _) two) same
          exact ⟨rfl, rfl⟩

/-- The unit of `|`. -/
def bar : UInt16 :=
  0x7C

theorem bar_notMem_js {text : String} (free : ∀ char ∈ text.toList, char.isDigit = true) :
    bar ∉ js text := by
  intro member
  obtain ⟨char, inside, unit⟩ := List.mem_flatMap.mp member
  have digit := free char inside
  rcases Utf16.encodeChar_cases char with
    ⟨single, own, -, -, same⟩ | ⟨high, low, own, first, second, -⟩
  · rw [own, List.mem_singleton] at unit
    rw [← same, ← unit] at digit
    revert digit
    decide
  · simp only [own, List.mem_cons, List.not_mem_nil, or_false] at unit
    rcases unit with rfl | rfl
    · revert first
      decide
    · revert second
      decide

/-- The parts of a key. -/
theorem snapshotKey_eq (moment : Moment Uri) :
    snapshotKey around moment =
      around.fsPath moment.target.uri ++ bar :: (js (toString moment.target.doc.version) ++
        bar :: (js (if moment.target.doc.isDirty then "true" else "false") ++
          bar :: (moment.target.doc.languageId ++
            bar :: (moment.repository.bind id).getD []))) := by
  have separator : js "|" = [bar] := rfl
  simp [snapshotKey, separator, List.intercalate]

theorem bar_notMem_version (version : Nat) : bar ∉ js (toString version) := by
  apply bar_notMem_js
  intro char member
  rw [Nat.toString_eq_repr, Nat.toList_repr] at member
  exact Nat.isDigit_of_mem_toDigits (by decide) (by decide) member

theorem append_bar_inj_right {Value : Type*} {bar : Value} {first second rest more : List Value}
    (one : bar ∉ rest) (two : bar ∉ more)
    (same : first ++ bar :: rest = second ++ bar :: more) : first = second ∧ rest = more := by
  have turned := congrArg List.reverse same
  rw [List.reverse_append, List.reverse_append, List.reverse_cons, List.reverse_cons,
    List.append_assoc, List.append_assoc] at turned
  obtain ⟨ends, starts⟩ := append_bar_inj (mt List.mem_reverse.mp one)
    (mt List.mem_reverse.mp two) turned
  exact ⟨List.reverse_inj.mp starts, List.reverse_inj.mp ends⟩

theorem version_inj {version other : Nat} (same : js (toString version) = js (toString other)) :
    version = other := by
  have digits := congrArg Utf16.decode same
  rw [js, js, Utf16.decode_encode, Utf16.decode_encode, Option.some.injEq, Nat.toString_eq_repr,
    Nat.toString_eq_repr, Nat.toList_repr, Nat.toList_repr] at digits
  rw [← @Nat.ofDigitChars_toDigits 10 version (by decide) (by decide), digits,
    Nat.ofDigitChars_toDigits (by decide) (by decide)]

/-- The key of a file tells its other parts, as long as no commit has a bar in it. -/
theorem parts_of_key {first second : Moment Uri}
    (same : snapshotKey around first = snapshotKey around second)
    (path : around.fsPath first.target.uri = around.fsPath second.target.uri)
    (commits : bar ∉ (first.repository.bind id).getD [] ∧
      bar ∉ (second.repository.bind id).getD []) :
    first.target.doc.version = second.target.doc.version ∧
      first.target.doc.isDirty = second.target.doc.isDirty ∧
      first.target.doc.languageId = second.target.doc.languageId ∧
      (first.repository.bind id).getD [] = (second.repository.bind id).getD [] := by
  have free (dirty : Bool) : bar ∉ js (if dirty then "true" else "false") := by
    cases dirty <;> decide
  have tell (dirty other : Bool)
      (same : js (if dirty then "true" else "false") = js (if other then "true" else "false")) :
      dirty = other := by
    revert same
    cases dirty <;> cases other <;> decide
  rw [snapshotKey_eq, snapshotKey_eq, path] at same
  have same := (List.cons.inj (List.append_cancel_left same)).2
  obtain ⟨version, same⟩ := append_bar_inj (bar_notMem_version _) (bar_notMem_version _) same
  obtain ⟨dirty, same⟩ := append_bar_inj (free _) (free _) same
  obtain ⟨language, commit⟩ := append_bar_inj_right commits.1 commits.2 same
  exact ⟨version_inj version, tell _ _ dirty, language, commit⟩

/-- A commit goes by its hash. -/
def Hashed (moment : Moment Uri) : Prop :=
  ∀ commit, moment.repository = some (some commit) →
    commit ≠ [] ∧ ∀ unit ∈ commit, unit ∈ js "0123456789abcdef"

theorem bar_notMem_commit {moment : Moment Uri} (hashed : Hashed moment) :
    bar ∉ (moment.repository.bind id).getD [] := by
  rcases head : moment.repository with _ | _ | commit
  · exact List.not_mem_nil
  · exact List.not_mem_nil
  · intro inside
    have digit := (hashed commit head).2 bar inside
    revert digit
    decide

theorem some_nil_ne_head {moment : Moment Uri} (hashed : Hashed moment) :
    moment.repository.bind id ≠ some [] := by
  intro empty
  obtain ⟨commit, head, none⟩ := Option.bind_eq_some_iff.mp empty
  rw [id_eq] at none
  exact (hashed [] (none ▸ head)).1 rfl

/-- Hashes are not empty, so that two of them, or none, are told apart. -/
theorem head_eq {first second : Moment Uri} (one : Hashed first) (two : Hashed second)
    (same : (first.repository.bind id).getD [] = (second.repository.bind id).getD []) :
    first.repository.bind id = second.repository.bind id := by
  have one := some_nil_ne_head one
  have two := some_nil_ne_head two
  revert one two same
  cases first.repository.bind id <;> cases second.repository.bind id <;> simp +contextual

/-! ### Git's answer -/

/-- The target's file, as the last commit has it. -/
def held (around : Surroundings Uri) (moment : Moment Uri) : Option JsString :=
  (moment.repository.bind id).bind fun commit =>
    around.textAt commit (around.fsPath moment.target.uri)

/-- Git answers, or has answered with a text that is remembered. -/
def answers (around : Surroundings Uri) (cache : BaselineCache) (moment : Moment Uri)
    (commit : JsString) : Bool :=
  match (cache.lookup (around.fsPath moment.target.uri)).filter fun hit =>
      hit.commit = commit ∧ BaselineCache.believed moment.asked hit with
  | some hit => hit.committed.isSome
  | none => !moment.fails

/-- The last commit has the file, but git fails to say so, or is believed not to have. -/
def Missed (around : Surroundings Uri) (cache : BaselineCache) (moment : Moment Uri) : Prop :=
  (held around moment).isSome ∧
    answers around cache moment ((moment.repository.bind id).getD []) = false

instance (cache : BaselineCache) (moment : Moment Uri) :
    Decidable (Missed around cache moment) :=
  inferInstanceAs (Decidable (_ ∧ _))

/-- Only what the commit has can be missed. -/
theorem not_missed {cache : BaselineCache} {moment : Moment Uri}
    (none : held around moment = none) : ¬ Missed around cache moment := by
  rintro ⟨some, -⟩
  rw [none] at some
  cases some

theorem repository_ne_none {moment : Moment Uri} {text : JsString}
    (found : held around moment = some text) : moment.repository ≠ none := by
  intro none
  rw [held, none] at found
  cases found

theorem found_eq {cache : BaselineCache} (faithful : Exact around cache) {moment : Moment Uri}
    {commit : JsString} (head : moment.repository = some (some commit)) :
    (found around cache moment (some commit)).1 =
      if answers around cache moment commit then
        around.textAt commit (around.fsPath moment.target.uri)
      else none := by
  have holds := (found_exact faithful head).1
  revert holds
  unfold answers found BaselineCache.get
  dsimp only
  cases (cache.lookup (around.fsPath moment.target.uri)).filter fun hit =>
      hit.commit = commit ∧ BaselineCache.believed moment.asked hit with
  | none =>
      intro
      simp only [shown, head]
      cases moment.fails <;> rfl
  | some hit =>
      intro holds
      dsimp only at holds ⊢
      split
      · next some =>
          obtain ⟨text, own⟩ := Option.isSome_iff_exists.mp some
          rw [own, holds text own]
      · next none => exact Option.not_isSome_iff_eq_none.mp none

/-- What is at hand is what the commit holds, unless it is missed. -/
theorem onHand_eq {cache : BaselineCache} (faithful : Exact around cache) (moment : Moment Uri) :
    onHand around cache moment =
      if Missed around cache moment then none else held around moment := by
  rcases head : moment.repository with _ | _ | commit
  · simp [onHand, held, head]
  · simp [onHand, held, head]
  · simp only [onHand, held, Missed, head, Option.bind_some, id_eq, Option.getD_some,
      found_eq faithful head]
    cases answers around cache moment commit <;>
      cases around.textAt commit (around.fsPath moment.target.uri) <;> simp

/-! ### What a key leaves open -/

/-- The reports are equal except for the caret. -/
def SameButCaret (first second : OpenFile) : Prop :=
  { first with cursor := none } = { second with cursor := none }

/-- While it is open, a document stays where it is, and a cell stays one. -/
structure Steady (first second : Moment Uri) : Prop where
  uri : first.target.uri = second.target.uri
  cell : first.target.cell = second.target.cell

/-- What two moments with one key must have in common besides: the document has not
been opened again, and the commit it is compared with, if it is, has been read at both
or at neither. -/
structure KeySuffices (around : Surroundings Uri) (before : BaselineCache) (first : Moment Uri)
    (after : BaselineCache) (second : Moment Uri) : Prop where
  opened : first.target.doc.opened = second.target.doc.opened
  compared : MAX_CONTENT_CHARS < first.target.doc.text.length ∨ first.target.cell = true ∨
    (first.repository = none ↔ second.repository = none) ∧
      (Missed around before first ↔ Missed around after second)

/-- The same moment, with another text in the buffer. -/
def Moment.saying (moment : Moment Uri) (text : JsString) : Moment Uri :=
  { moment with target.doc.text := text }

/-- A version of a document that is open has one text. -/
def MaySay (first second : Moment Uri) (text : JsString) : Prop :=
  first.target.doc.opened = second.target.doc.opened →
    first.target.doc.version = second.target.doc.version → text = first.target.doc.text

/-- A text that is at hand is that of the commit in the key. -/
theorem textAt_of_onHand {cache : BaselineCache} (faithful : Exact around cache)
    {moment : Moment Uri} {old : JsString} (hand : onHand around cache moment = some old) :
    around.textAt ((moment.repository.bind id).getD []) (around.fsPath moment.target.uri) =
      some old := by
  obtain ⟨-, -, ⟨head, -⟩ | ⟨-, none, -⟩ | ⟨commit, other, head, some, holds, -⟩⟩ :=
    committed_cases faithful moment
  · rw [onHand, head] at hand
    cases hand
  · rw [none] at hand
    cases hand
  · rw [some] at hand
    cases hand
    rw [head]
    exact holds

/-- Reports on one version of a document differ in the baseline at most, and there only
if a repository appears or a commit is missed once. -/
theorem sameButCaret_iff {before after : Caches} (valid : before.Valid around)
    (still : after.Valid around) {first second : Moment Uri} (one : Hashed first)
    (two : Hashed second) (steady : Steady first second)
    (same : snapshotKey around first = snapshotKey around second)
    (text : second.target.doc.text = first.target.doc.text) :
    SameButCaret (buildOpenFile around before first).1 (buildOpenFile around after second).1 ↔
      MAX_CONTENT_CHARS < first.target.doc.text.length ∨ first.target.cell = true ∨
        (first.repository = none ↔ second.repository = none) ∧
          (Missed around before.baselines first ↔ Missed around after.baselines second) := by
  obtain ⟨-, dirty, language, commit⟩ := parts_of_key same
    (congrArg around.fsPath steady.uri) ⟨bar_notMem_commit one, bar_notMem_commit two⟩
  have holds : held around first = held around second := by
    rw [held, held, head_eq one two commit, steady.uri]
  rw [buildOpenFile_eq valid, buildOpenFile_eq still, SameButCaret]
  simp only [OpenFile.mk.injEq, true_and, steady.uri, text, dirty, language]
  by_cases long : MAX_CONTENT_CHARS < first.target.doc.text.length
  · simp only [long, true_or, if_true]
  · simp only [long, false_or, Incomparable, ← steady.cell]
    by_cases cell : first.target.cell = true
    · simp only [cell, true_or, if_true]
    · simp only [cell, false_or, Bool.false_eq_true, onHand_eq valid.baselines,
        onHand_eq still.baselines, ← holds]
      cases old : held around first with
      | none =>
          simp only [not_missed old, not_missed (holds ▸ old), if_false]
          by_cases bare : first.repository = none <;>
            by_cases other : second.repository = none <;> simp [bare, other]
      | some text =>
          simp only [repository_ne_none old, repository_ne_none (holds ▸ old), if_false]
          by_cases lost : Missed around before.baselines first <;>
            by_cases later : Missed around after.baselines second <;> simp [lost, later]

theorem content_of_sameButCaret {before after : Caches} (valid : before.Valid around)
    (still : after.Valid around) {first second : Moment Uri}
    (same : SameButCaret (buildOpenFile around before first).1
      (buildOpenFile around after second).1) :
    first.target.doc.text.take MAX_CONTENT_CHARS =
      second.target.doc.text.take MAX_CONTENT_CHARS := by
  rw [buildOpenFile_eq valid, buildOpenFile_eq still] at same
  exact congrArg OpenFile.content same

theorem exists_other_content (text : JsString) :
    ∃ other : JsString, other.take MAX_CONTENT_CHARS ≠ text.take MAX_CONTENT_CHARS := by
  cases text with
  | nil => exact ⟨[0], nofun⟩
  | cons unit text => exact ⟨[], nofun⟩

/-- A file whose only commit holds what the buffer still says. -/
def unchanged (name : String) : Surroundings Unit :=
  { fsPath := fun _ => js "/w/" ++ js name
    locate := fun _ => { relativePath := js name, exercise := none }
    textAt := fun _ _ => some (js "x")
    structuredPatch := fun _ _ _ => [] }

def unchangedAt (character : Nat) (asked : Int) : Moment Unit :=
  { target :=
      { doc :=
          { opened := 0
            text := js "x"
            version := 1
            isDirty := false
            languageId := js "python" }
        active := some { line := 0, character }
        uri := ()
        cell := false }
    repository := some (some (js "c0ffee"))
    fails := false
    asked
    answered := asked }

theorem hashed_unchanged (character : Nat) (asked : Int) :
    Hashed (unchangedAt character asked) := by
  rintro _ ⟨⟩
  have digits : (js "c0ffee").all (· ∈ js "0123456789abcdef") = true := by decide
  exact ⟨nofun, fun unit inside => of_decide_eq_true (List.all_eq_true.mp digits unit inside)⟩

/-- A cell of a notebook, in its first version. -/
def cellSaying (opened : Nat) (text : String) : Moment Unit :=
  { target :=
      { doc :=
          { opened
            text := js text
            version := 1
            isDirty := false
            languageId := js "python" }
        active := some { line := 0, character := 0 }
        uri := ()
        cell := true }
    repository := none
    fails := false
    asked := 0
    answered := 0 }

end Editor

end Hermione
