import Mathlib.Logic.Function.Basic
import Hermione.EventRuns
import Hermione.SnapshotKeys

/-!
# Loading baselines while HEAD moves

The commit that a file is compared with is read from what the git extension believes;
the text is then asked of git for `HEAD`, and arrives later.  Meanwhile other files are
loaded, and HEAD may move.
-/

namespace Hermione

namespace Editor

open EventRuns

variable {Uri Repo : Type}

namespace BaselineCache

/-- What is known of the file at the commit. -/
def hit (cache : BaselineCache) (now : Int) (file commit : JsString) : Option Entry :=
  (cache.lookup file).filter fun hit => hit.commit = commit ∧ believed now hit

/-- Keeps what was loaded, and no more than so many files. -/
def store (cache : BaselineCache) (file : JsString) (entry : Entry) : BaselineCache :=
  let stored := cache.set file entry
  if CACHE_LIMIT < stored.length then stored.tail else stored

theorem get_of_hit {cache : BaselineCache} {asked answered : Int} {file commit : JsString}
    {load : Option JsString} {known : Entry} (found : cache.hit asked file commit = some known) :
    cache.get asked answered file (some commit) load = (known.committed, cache.set file known) := by
  unfold get
  unfold hit at found
  simp only [found]

theorem get_of_not_hit {cache : BaselineCache} {asked answered : Int} {file commit : JsString}
    {load : Option JsString} (unknown : cache.hit asked file commit = none) :
    cache.get asked answered file (some commit) load =
      (load, cache.store file { commit, committed := load, time := answered }) := by
  unfold get
  unfold hit at unknown
  simp only [unknown]
  rfl

end BaselineCache

/-- What the commit says about the file, by the text that was found. -/
def Committed.of (text commit : Option JsString) : Committed :=
  match text, commit with
  | some text, some commit => .text text commit
  -- No commit at all means nothing can have been committed.
  | _, _ => .absent

/-- How far the comparison of a file's buffer is. -/
inductive BaselineLoad (Repo : Type) where
  | idle
  /-- The commit is read, and git is asked for the file at HEAD. -/
  | asking (file buffer : JsString) (repo : Repo) (commit : Option JsString)
  /-- Git resolved HEAD to `head` and answered, or did not get to. -/
  | shown (file buffer : JsString) (commit head : Option JsString) (fails : Bool)
  | returned (file buffer : JsString) (found : Committed)
  | reported (file buffer : JsString) (found : Committed) (baseline : Baseline)

structure BaselineLoads (Repo : Type) where
  /-- The commits that the repositories' HEADs are at, if they are at any. -/
  head : Repo → Option JsString
  /-- Where the git extension believes them to be. -/
  known : Repo → Option JsString
  caches : Caches
  loads : Nat → BaselineLoad Repo

namespace BaselineLoads

inductive Event (Repo : Type) where
  /-- A commit, a checkout or a reset. -/
  | move (repo : Repo) (commit : Option JsString)
  /-- The git extension's state is refreshed. -/
  | notice (repo : Repo) (commit : Option JsString)
  /-- The file may be in no repository. -/
  | begin (load : Nat) (file buffer : JsString) (repo : Option Repo) (now : Int)
  | shown (load : Nat) (fails : Bool)
  | store (load : Nat) (now : Int)
  | compare (load : Nat)

def start (head known : Repo → Option JsString) : BaselineLoads Repo :=
  { head, known, caches := .empty, loads := fun _ => .idle }

def put (state : BaselineLoads Repo) (load : Nat) (phase : BaselineLoad Repo) :
    BaselineLoads Repo :=
  { state with loads := Function.update state.loads load phase }

@[simp]
theorem put_self {state : BaselineLoads Repo} {load : Nat} {phase : BaselineLoad Repo} :
    (state.put load phase).loads load = phase :=
  Function.update_self _ _ _

theorem put_of_ne {state : BaselineLoads Repo} {load other : Nat} {phase : BaselineLoad Repo}
    (different : other ≠ load) : (state.put load phase).loads other = state.loads other :=
  Function.update_of_ne different _ _

section Steps

variable (around : Surroundings Uri)

/-- Rejecting is how git says that the commit has no such file. -/
def shownText (file : JsString) (head : Option JsString) (fails : Bool) : Option JsString :=
  if fails then none else head.bind fun commit => around.textAt commit file

variable [DecidableEq Repo]

def step (state : BaselineLoads Repo) : Event Repo → Option (BaselineLoads Repo)
  | .move repo commit => some { state with head := Function.update state.head repo commit }
  | .notice repo commit => some { state with known := Function.update state.known repo commit }
  | .begin load file buffer repo now =>
      match state.loads load, repo with
      | .idle, none => some (state.put load (.returned file buffer .noRepo))
      | .idle, some repo =>
          match state.known repo with
          | none => some (state.put load (.asking file buffer repo none))
          | some commit =>
              match state.caches.baselines.hit now file commit with
              | some hit =>
                  some ({ state with
                    caches.baselines := state.caches.baselines.set file hit }.put load
                      (.returned file buffer (.of hit.committed (some commit))))
              | none => some (state.put load (.asking file buffer repo (some commit)))
      | _, _ => none
  | .shown load fails =>
      match state.loads load with
      | .asking file buffer repo commit =>
          some (state.put load (.shown file buffer commit (state.head repo) fails))
      | _ => none
  | .store load now =>
      match state.loads load with
      | .shown file buffer none head fails =>
          some (state.put load
            (.returned file buffer (.of (shownText around file head fails) none)))
      | .shown file buffer (some commit) head fails =>
          let committed := shownText around file head fails
          some ({ state with
            caches.baselines :=
              state.caches.baselines.store file { commit, committed, time := now } }.put load
                (.returned file buffer (.of committed (some commit))))
      | _ => none
  | .compare load =>
      match state.loads load with
      | .returned file buffer .noRepo =>
          some (state.put load (.reported file buffer .noRepo .none))
      | .returned file buffer .absent =>
          some (state.put load (.reported file buffer .absent .untracked))
      | .returned file buffer (.text old commit) =>
          let (hunks, diffs) := state.caches.diffs.get file commit buffer
            (diffHunks around old buffer)
          some ({ state with caches.diffs := diffs }.put load
            (.reported file buffer (.text old commit) (.head hunks)))
      | _ => none

/-- Whatever is kept of a commit or answered of it is the commit's. -/
structure Faithful (state : BaselineLoads Repo) : Prop where
  caches : state.caches.Valid around
  returned : ∀ load file buffer text commit,
    state.loads load = .returned file buffer (.text text commit) →
      around.textAt commit file = some text
  reported : ∀ load file buffer text commit hunks,
    state.loads load = .reported file buffer (.text text commit) (.head hunks) →
      around.textAt commit file = some text ∧ hunks = diffHunks around text buffer

/-- What is stored was not shown, or the commit that was read has it too: HEAD had not
moved from it, or only to a commit with the same text of the file. -/
def Agrees (state : BaselineLoads Repo) : Event Repo → Prop
  | .store load _ =>
      ∀ file buffer commit head fails,
        state.loads load = .shown file buffer (some commit) head fails →
          shownText around file head fails = none ∨
            shownText around file head fails = around.textAt commit file
  | _ => True

end Steps

section Faith

variable {around : Surroundings Uri} {state : BaselineLoads Repo}

theorem exact_store {cache : BaselineCache} (faithful : Exact around cache) {file : JsString}
    {entry : Entry} (holds : ∀ text, entry.committed = some text →
      around.textAt entry.commit file = some text) :
    Exact around (cache.store file entry) := by
  have stored := exact_set faithful holds
  unfold BaselineCache.store
  dsimp only
  split
  · exact fun file entry text member => stored file entry text (List.mem_of_mem_tail member)
  · exact stored

theorem hit_exact {cache : BaselineCache} (faithful : Exact around cache) {now : Int}
    {file commit : JsString} {known : Entry} (found : cache.hit now file commit = some known) :
    known.commit = commit ∧ ∀ text, known.committed = some text →
      around.textAt commit file = some text := by
  obtain ⟨hit, good⟩ := Option.filter_eq_some_iff.mp found
  rw [decide_eq_true_eq] at good
  refine ⟨good.1, fun text own => ?_⟩
  rw [← good.1]
  exact faithful file known text (mem_of_lookup hit) own

theorem of_eq_text {text commit : Option JsString} {old at' : JsString} :
    Committed.of text commit = .text old at' ↔ text = some old ∧ commit = some at' := by
  unfold Committed.of
  cases text <;> cases commit <;> simp

/-- A load's next phase, with caches that stay true, is faithful if what it says is. -/
theorem Faithful.put (faithful : Faithful around state) {caches : Caches} (load : Nat)
    {phase : BaselineLoad Repo} (valid : caches.Valid around)
    (returned : ∀ file buffer text commit,
      phase = .returned file buffer (.text text commit) → around.textAt commit file = some text)
    (reported : ∀ file buffer text commit hunks,
      phase = .reported file buffer (.text text commit) (.head hunks) →
        around.textAt commit file = some text ∧ hunks = diffHunks around text buffer) :
    Faithful around ({ state with caches }.put load phase) := by
  constructor
  · exact valid
  · intro other file buffer text commit held
    by_cases same : other = load
    · rw [same, put_self] at held
      exact returned file buffer text commit held
    · rw [put_of_ne same] at held
      exact faithful.returned other file buffer text commit held
  · intro other file buffer text commit hunks held
    by_cases same : other = load
    · rw [same, put_self] at held
      exact reported file buffer text commit hunks held
    · rw [put_of_ne same] at held
      exact faithful.reported other file buffer text commit hunks held

theorem faithful_start {head known : Repo → Option JsString} :
    Faithful around (start head known) where
  caches := ⟨nofun, nofun⟩
  returned := nofun
  reported := nofun

variable [DecidableEq Repo] {event : Event Repo} {next : BaselineLoads Repo}

/-- A step that stores nothing from another commit keeps everything faithful. -/
theorem Faithful.step (faithful : Faithful around state) (agrees : Agrees around state event)
    (stepped : step around state event = some next) : Faithful around next := by
  cases event with
  | move repo commit =>
      cases stepped
      exact ⟨faithful.caches, faithful.returned, faithful.reported⟩
  | notice repo commit =>
      cases stepped
      exact ⟨faithful.caches, faithful.returned, faithful.reported⟩
  | begin load file buffer repo now =>
      unfold BaselineLoads.step at stepped
      dsimp only at stepped
      split at stepped
      · cases stepped
        exact faithful.put load faithful.caches nofun nofun
      · split at stepped
        · cases stepped
          exact faithful.put load faithful.caches nofun nofun
        · next commit _ =>
            split at stepped
            · next known found =>
                cases stepped
                obtain ⟨rfl, own⟩ := hit_exact faithful.caches.baselines found
                have valid : Caches.Valid around { state.caches with
                    baselines := state.caches.baselines.set file known } :=
                  ⟨exact_set faithful.caches.baselines own, faithful.caches.diffs⟩
                apply faithful.put load valid
                · intro file buffer text commit returned
                  injection returned with sameFile _ sameText
                  obtain ⟨text_eq, commit_eq⟩ := of_eq_text.mp sameText
                  cases commit_eq
                  exact sameFile ▸ own text text_eq
                · nofun
            · cases stepped
              exact faithful.put load faithful.caches nofun nofun
      · cases stepped
  | shown load fails =>
      unfold BaselineLoads.step at stepped
      dsimp only at stepped
      split at stepped
      · cases stepped
        exact faithful.put load faithful.caches nofun nofun
      · cases stepped
  | store load now =>
      unfold BaselineLoads.step at stepped
      dsimp only at stepped
      split at stepped
      · cases stepped
        apply faithful.put load faithful.caches
        · intro file buffer text commit returned
          injection returned with _ _ sameText
          cases (of_eq_text.mp sameText).2
        · nofun
      · next file buffer commit head fails phase =>
          cases stepped
          have own : ∀ text, shownText around file head fails = some text →
              around.textAt commit file = some text := by
            intro text shown
            rcases agrees file buffer commit head fails phase with nothing | same
            · cases nothing.symm.trans shown
            · exact same.symm.trans shown
          have valid : Caches.Valid around { state.caches with
              baselines := state.caches.baselines.store file
                { commit, committed := shownText around file head fails, time := now } } :=
            ⟨exact_store faithful.caches.baselines own, faithful.caches.diffs⟩
          apply faithful.put load valid
          · intro file buffer text commit returned
            injection returned with sameFile _ sameText
            obtain ⟨text_eq, commit_eq⟩ := of_eq_text.mp sameText
            cases commit_eq
            exact sameFile ▸ own text text_eq
          · nofun
      · cases stepped
  | compare load =>
      unfold BaselineLoads.step at stepped
      dsimp only at stepped
      split at stepped
      · cases stepped
        exact faithful.put load faithful.caches nofun nofun
      · cases stepped
        exact faithful.put load faithful.caches nofun nofun
      · next file buffer old commit phase =>
          cases stepped
          have holds := faithful.returned load file buffer old commit phase
          obtain ⟨hunks, diffs⟩ := @memo_exact _ _ _ faithful.caches.diffs _ _ buffer _ holds
          have valid : Caches.Valid around { state.caches with
              diffs := (state.caches.diffs.get file commit buffer
                (diffHunks around old buffer)).2 } :=
            ⟨faithful.caches.baselines, diffs⟩
          apply faithful.put load valid
          · nofun
          · intro file buffer text commit answered reported
            cases reported
            exact ⟨holds, hunks⟩
      · cases stepped

/-- What is stored from another commit is answered as the one's that was read. -/
theorem Faithful.agrees (faithful : Faithful around next)
    (stepped : BaselineLoads.step around state event = some next) : Agrees around state event := by
  cases event with
  | store load now =>
      intro file buffer commit head fails phase
      unfold BaselineLoads.step at stepped
      simp only [phase] at stepped
      cases stepped
      cases shown : shownText around file head fails with
      | none => exact .inl rfl
      | some text =>
          right
          apply Eq.symm
          apply faithful.returned load file buffer text commit
          simp [BaselineLoads.put, shown, Committed.of]
  | _ => trivial

end Faith

/-- Texts are answered and kept as those of their commits, in all of a run, exactly if
whatever is stored is also the text at the commit that was read. -/
theorem baselines_faithful_iff [DecidableEq Repo] (around : Surroundings Uri)
    (head known : Repo → Option JsString) (events : List (Event Repo))
    (final : BaselineLoads Repo)
    (ran : EventRuns.run (step around) (start head known) events = some final) :
    Throughout (step around) (Faithful around) (start head known) events ↔
      Guarded (step around) (Agrees around) (start head known) events := by
  apply Iff.symm
  apply guarded_iff_throughout (fun _ => True) _ _ _ trivial faithful_start
    (fun _ _ => trivial) ran
  · exact fun _ _ _ _ _ => trivial
  · exact fun _ _ _ _ faithful (_ : True) agrees stepped => faithful.step agrees stepped
  · exact fun _ _ _ _ faithful stepped => faithful.agrees stepped

/-- A file that the second commit has changed. -/
def twoCommits : Surroundings Unit where
  fsPath _ := js "/w/a.py"
  locate _ := { relativePath := js "a.py", exercise := none }
  textAt commit _ := some (if commit = js "c1" then js "old" else js "new")
  structuredPatch _ _ _ := []

/-- One load, with HEAD at the first commit when git resolves it, or moved before. -/
def loading (moved : List (Event Unit)) : List (Event Unit) :=
  .begin 0 (js "/w/a.py") (js "new") (some ()) 0 :: moved ++ [.shown 0 false, .store 0 0]

/-- HEAD moves once the text is there. -/
theorem baselines_faithful_iff_unmoved :
    ∃ final, EventRuns.run (step twoCommits)
        (start (fun _ => some (js "c1")) fun _ => some (js "c1"))
        (loading [] ++ [.move () (some (js "c2"))]) = some final ∧
      Throughout (step twoCommits) (Faithful twoCommits)
        (start (fun _ => some (js "c1")) fun _ => some (js "c1"))
        (loading [] ++ [.move () (some (js "c2"))]) := by
  refine ⟨_, rfl, ?_⟩
  apply (baselines_faithful_iff twoCommits _ _ _ _ rfl).mpr
  apply Guarded.cons trivial rfl
  apply Guarded.cons trivial rfl
  refine Guarded.cons ?_ rfl (Guarded.cons trivial rfl trivial)
  intro file buffer commit head fails phase
  cases phase
  exact .inr rfl

/-- A text of the second commit is kept as the first one's. -/
theorem not_baselines_faithful_moved :
    ¬ ∀ (events : List (Event Unit)) (final : BaselineLoads Unit),
      EventRuns.run (step twoCommits) (start (fun _ => some (js "c1")) fun _ => some (js "c1"))
          events = some final →
        Faithful twoCommits final := by
  intro faithful
  have kept := (faithful (loading [.move () (some (js "c2"))]) _ rfl).caches.baselines
    (js "/w/a.py") { commit := js "c1", committed := some (js "new"), time := 0 } (js "new")
    List.mem_cons_self rfl
  exact absurd kept (by decide)

/-! ### One load on its own -/

theorem committed_of_repository {around : Surroundings Uri} {cache : BaselineCache}
    {moment : Moment Uri} {commit : Option JsString} (here : moment.repository = some commit) :
    committed around cache moment =
      (.of (found around cache moment commit).1 commit, (found around cache moment commit).2) := by
  unfold committed Committed.of
  rw [here]
  dsimp only
  cases (found around cache moment commit).1 <;> cases commit <;> rfl

/-- With HEAD where the git extension believes it to be, a load that nothing comes in
between is a report's single moment: git is asked unless the text is known. -/
theorem committed_eq_steps [DecidableEq Repo] (around : Surroundings Uri)
    (state : BaselineLoads Repo) (load : Nat) (moment : Moment Uri) (repo : Repo)
    (buffer : JsString) (idle : state.loads load = .idle)
    (noticed : state.known repo = state.head repo)
    (here : moment.repository = some (state.head repo)) :
    ∃ asking next, (asking = [] ∨
        asking = [.shown load moment.fails, .store load moment.answered]) ∧
      EventRuns.run (step around) state
          (.begin load (around.fsPath moment.target.uri) buffer (some repo) moment.asked ::
            asking) =
        some next ∧
      next.caches.baselines = (committed around state.caches.baselines moment).2 ∧
      next.loads load = .returned (around.fsPath moment.target.uri) buffer
        (committed around state.caches.baselines moment).1 := by
  have answered : shownText around (around.fsPath moment.target.uri) (state.head repo)
      moment.fails = shown around moment := by
    unfold shownText shown
    rw [here]
    cases state.head repo <;> rfl
  rw [committed_of_repository here]
  unfold found
  cases head : state.head repo with
  | none =>
      rw [head] at noticed answered
      refine ⟨_, ?next, .inr rfl, ?ran, ?_⟩
      case ran =>
        simp only [run_cons, run_nil, step, idle, noticed, put_self, Option.bind_some]
        rfl
      refine ⟨rfl, ?_⟩
      rw [put_self, ← answered]
      exact congrArg (fun head => BaselineLoad.returned _ buffer
        (.of (shownText around _ head moment.fails) none)) head
  | some commit =>
      rw [head] at noticed answered
      cases known : state.caches.baselines.hit moment.asked (around.fsPath moment.target.uri)
        commit with
      | some hit =>
          rw [BaselineCache.get_of_hit known]
          refine ⟨_, ?known, .inl rfl, ?knew, ?_⟩
          case knew =>
            simp only [run_cons, run_nil, step, idle, noticed, known, Option.bind_some]
            rfl
          exact ⟨rfl, put_self⟩
      | none =>
          rw [BaselineCache.get_of_not_hit known]
          refine ⟨_, ?asked, .inr rfl, ?asks, ?_⟩
          case asks =>
            simp only [run_cons, run_nil, step, idle, noticed, known, put_self, Option.bind_some]
            rfl
          have same : shownText around (around.fsPath moment.target.uri)
              ((state.put load (.asking (around.fsPath moment.target.uri) buffer repo
                (some commit))).head repo) moment.fails = shown around moment := by
            rw [← answered, ← head]
            rfl
          rw [same]
          exact ⟨rfl, put_self⟩

end BaselineLoads

end Editor

end Hermione
