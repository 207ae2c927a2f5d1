import Hermione.GitHubRepo
import Hermione.SingleFlight

/-!
# What the remembered solutions tell

A slot's number stands for one key as long as anyone can reach it: swept slots
are not used again, and a reader keeps its key with its slot.  So what lies in a
slot was fetched for the key that is read from it, and an answer taken from there
is young enough for what it says.
-/

namespace Hermione

open EventRuns

namespace Solutions

/-- How long an outcome is believed. -/
def timeToLive : Outcome → Nat
  | .ok (some _) => foundTtl
  | .ok none => missingTtl
  | .error _ => failedTtl

theorem fresh_iff {entry : Entry} {now : Nat} (past : entry.fetchedAt ≤ now) :
    entry.fresh now = true ↔ now < entry.fetchedAt + timeToLive entry.outcome := by
  have ttl : entry.fresh now = decide (elapsed now entry.fetchedAt < timeToLive entry.outcome) := by
    obtain ⟨fetchedAt, _ | _ | text⟩ := entry <;> rfl
  rw [ttl, decide_eq_true_iff, elapsed]
  omega

/-- The key of a read: the file's place in the course's solutions. -/
def readKey (repo : GitHubRepo) (source : SolutionsSource) (studentFile : RepoPath) :
    SolutionKey :=
  { owner := repo.owner
    name := repo.name
    gitRef := source.gitRef.map GitRef.text
    path := (source.locate studentFile).text }

variable {Key : Type*}

/-- What an event does. -/
inductive Moved [DecidableEq Key] (cache : Solutions Key) : Event Key → Solutions Key → Prop where
  | read {reader : Nat} {key : Key} (idle : cache.readers reader = .idle) :
      Moved cache (.read reader key)
        ((cache.slot key).1.put reader (.handed key (cache.slot key).2))
  | lock {reader : Nat} {key : Key} {slot : Nat} (phase : cache.readers reader = .handed key slot) :
      Moved cache (.lock reader)
        ((cache.write slot
            { cache.cells slot with line := (cache.cells slot).line ++ [reader] }).put
          reader (.queued key slot))
  | taken {reader : Nat} {key : Key} {slot : Nat} {entry : Entry}
      (phase : cache.readers reader = .queued key slot)
      (found : (cache.cells slot).entry = some entry) (fresh : entry.fresh cache.now = true) :
      Moved cache (.look reader)
        ((cache.write slot ((cache.cells slot).leave reader)).put reader
          (.answered key entry.outcome cache.now))
  | missed {reader : Nat} {key : Key} {slot : Nat}
      (phase : cache.readers reader = .queued key slot) :
      Moved cache (.look reader) (cache.put reader (.fetching key slot))
  | fetched {reader : Nat} {key : Key} {slot : Nat} {outcome : Outcome}
      (phase : cache.readers reader = .fetching key slot) :
      Moved cache (.fetched reader outcome)
        ((cache.write slot (({ cache.cells slot with
            entry := some { fetchedAt := cache.now, outcome } } : Cell).leave reader)).put reader
          (.answered key outcome cache.now))
  | dropped {reader : Nat} : Moved cache (.drop reader) (cache.put reader .dropped)
  | left {reader slot : Nat} :
      Moved cache (.drop reader)
        ((cache.write slot ((cache.cells slot).leave reader)).put reader .dropped)
  | tick {span : Nat} : Moved cache (.tick span) { cache with now := cache.now + span }

variable [DecidableEq Key]

theorem moved_of_step {cache next : Solutions Key} {event : Event Key}
    (stepped : step cache event = some next) : Moved cache event next := by
  cases event with
  | read reader key =>
      simp only [step] at stepped
      split at stepped
      · next idle =>
          cases stepped
          exact .read idle
      · cases stepped
  | lock reader =>
      simp only [step] at stepped
      split at stepped
      · next phase =>
          cases stepped
          exact .lock phase
      · cases stepped
  | look reader =>
      simp only [step] at stepped
      split at stepped
      · next phase =>
          split at stepped
          · split at stepped
            · next entry found =>
                cases stepped
                obtain ⟨found, fresh⟩ := Option.filter_eq_some_iff.mp found
                exact .taken phase found fresh
            · cases stepped
              exact .missed phase
          · cases stepped
      · cases stepped
  | fetched reader outcome =>
      simp only [step] at stepped
      split at stepped
      · next phase =>
          cases stepped
          exact .fetched phase
      · cases stepped
  | drop reader =>
      simp only [step] at stepped
      split at stepped
      all_goals cases stepped
      · exact .dropped
      · exact .left
      · exact .left
  | tick span =>
      cases stepped
      exact .tick

/-- What a reader's call is about, as far as it tells. -/
def Reading.About (key : Key) : Reading Key → Prop
  | .idle => False
  | .handed other _ | .queued other _ | .fetching other _ | .answered other _ _ => other = key
  | .dropped => True

omit [DecidableEq Key] in
theorem about_put {cache : Solutions Key} {reader other : Nat} {before reading : Reading Key}
    {key : Key} (phase : cache.readers reader = before)
    (onward : before.About key → reading.About key) (about : (cache.readers other).About key) :
    ((cache.put reader reading).readers other).About key := by
  by_cases same : other = reader
  · subst same
    rw [readers_put_self]
    rw [phase] at about
    exact onward about
  · rwa [readers_put_of_ne same]

/-- No call changes its key. -/
theorem about_of_moved {cache next : Solutions Key} {event : Event Key} {reader : Nat} {key : Key}
    (moved : Moved cache event next) (about : (cache.readers reader).About key) :
    (next.readers reader).About key := by
  cases moved with
  | read idle =>
      rw [← readers_slot cache] at idle about
      exact about_put idle False.elim about
  | lock phase => exact about_put phase id about
  | taken phase found fresh => exact about_put phase id about
  | missed phase => exact about_put phase id about
  | fetched phase => exact about_put phase id about
  | dropped => exact about_put rfl (fun _ => trivial) about
  | left => exact about_put rfl (fun _ => trivial) about
  | tick => exact about

/-- Once a reader asked for a key, its call is about that key. -/
theorem about_of_run {events : List (Event Key)} {cache : Solutions Key} {reader : Nat} {key : Key}
    (ran : run step start events = some cache) (asked : .read reader key ∈ events) :
    (cache.readers reader).About key := by
  apply history_of_run (fun past (cache : Solutions Key) =>
    .read reader key ∈ past → (cache.readers reader).About key) _ _ ran asked
  · intro past cache event next _ about stepped asked
    have moved := moved_of_step stepped
    rcases List.mem_append.mp asked with before | now
    · exact about_of_moved moved (about before)
    · rw [List.mem_singleton] at now
      subst now
      obtain ⟨-, rfl⟩ := step_read stepped
      rw [readers_put_self]
      rfl
  · intro asked
    cases asked

/-! ### Whose slot it is -/

/-- GitHub answered this reader, which fetched the key, with what the entry
holds. -/
def FetchedFor (events : List (Event Key)) (key : Key) (reader : Nat) (entry : Entry) : Prop :=
  ∃ before after cache slot, events = before ++ .fetched reader entry.outcome :: after ∧
    run step start before = some cache ∧ cache.readers reader = .fetching key slot ∧
    cache.now = entry.fetchedAt

theorem FetchedFor.append {events : List (Event Key)} {key : Key} {reader : Nat} {entry : Entry}
    (fetched : FetchedFor events key reader entry) (later : List (Event Key)) :
    FetchedFor (events ++ later) key reader entry := by
  obtain ⟨before, after, cache, slot, rfl, rest⟩ := fetched
  exact ⟨before, after ++ later, cache, slot, by simp, rest⟩

/-- Slots with the keys they stand for. -/
structure Owned (past : List (Event Key)) (cache : Solutions Key) (owner : Nat → Option Key) :
    Prop where
  made : ∀ slot, cache.made ≤ slot → owner slot = none
  bound : ∀ key slot, cache.slots.lookup key = some slot → owner slot = some key
  going : ∀ reader key slot, cache.underWay reader = some (key, slot) → owner slot = some key
  fetched : ∀ slot entry, (cache.cells slot).entry = some entry →
    entry.fetchedAt ≤ cache.now ∧
      ∃ key reader, owner slot = some key ∧ FetchedFor past key reader entry

/-- An answer was fetched for its key, by this reader or not too long before. -/
def Supported (past : List (Event Key)) (reader : Nat) (key : Key) (outcome : Outcome)
    (instant : Nat) : Prop :=
  ∃ fetcher entry, entry.outcome = outcome ∧ FetchedFor past key fetcher entry ∧
    entry.fetchedAt ≤ instant ∧
    (fetcher = reader ∨ instant < entry.fetchedAt + timeToLive outcome)

/-- The entries after an event are those before it and what was just fetched. -/
theorem entry_of_moved {cache next : Solutions Key} {event : Event Key} {slot : Nat}
    {entry : Entry} (moved : Moved cache event next)
    (holds : (next.cells slot).entry = some entry) :
    (cache.cells slot).entry = some entry ∨
      ∃ reader key, event = .fetched reader entry.outcome ∧
        cache.readers reader = .fetching key slot ∧ entry.fetchedAt = cache.now := by
  have untouched : ∀ {other : Nat} {cell : Cell},
      ((Function.update cache.cells other cell) slot).entry = some entry →
      cell.entry = (cache.cells other).entry → (cache.cells slot).entry = some entry := by
    intro other cell written same
    by_cases here : slot = other
    · rw [here, Function.update_self] at written
      rw [here, ← same, written]
    · rwa [Function.update_of_ne here] at written
  cases moved with
  | read idle =>
      left
      change (((cache.slot _).1).cells slot).entry = some entry at holds
      rwa [cells_slot] at holds
  | lock phase => exact .inl (untouched holds rfl)
  | taken phase found fresh => exact .inl (untouched holds rfl)
  | missed phase => exact .inl holds
  | @fetched reader key other outcome phase =>
      change ((Function.update cache.cells other _) slot).entry = some entry at holds
      by_cases here : slot = other
      · rw [here, Function.update_self] at holds
        cases holds
        exact .inr ⟨reader, key, rfl, here ▸ phase, rfl⟩
      · rw [Function.update_of_ne here] at holds
        exact .inl holds
  | dropped => exact .inl holds
  | left => exact .inl (untouched holds rfl)
  | tick => exact .inl holds

theorem slot_spec (cache : Solutions Key) (key : Key) :
    cache.slots.lookup key = some (cache.slot key).2 ∧ (cache.slot key).1.made = cache.made ∨
      (cache.slot key).2 = cache.made ∧ (cache.slot key).1.made = cache.made + 1 := by
  unfold Solutions.slot
  split
  · next found => exact .inl ⟨lookup_of_swept found, rfl⟩
  · exact .inr ⟨rfl, rfl⟩

/-- The owners after a key was asked for: a slot made for it is its own. -/
def ownerAfter (cache : Solutions Key) (owner : Nat → Option Key) (key : Key) :
    Nat → Option Key :=
  Function.update owner (cache.slot key).2 (some key)

theorem owned_read {past : List (Event Key)} {cache : Solutions Key} {owner : Nat → Option Key}
    (owned : Owned past cache owner) (reader : Nat) (key : Key) :
    Owned (past ++ [.read reader key])
      ((cache.slot key).1.put reader (.handed key (cache.slot key).2))
      (cache.ownerAfter owner key) := by
  have kept : ∀ slot key', owner slot = some key' →
      cache.ownerAfter owner key slot = some key' := by
    intro slot key' own
    unfold ownerAfter
    by_cases here : slot = (cache.slot key).2
    · rw [here, Function.update_self]
      rcases cache.slot_spec key with ⟨found, -⟩ | ⟨new, -⟩
      · rw [here, owned.bound key _ found] at own
        exact own
      · rw [owned.made slot (by rw [here, new])] at own
        cases own
    · rwa [Function.update_of_ne here]
  constructor
  · intro slot beyond
    change (cache.slot key).1.made ≤ slot at beyond
    unfold ownerAfter
    rcases cache.slot_spec key with ⟨found, made⟩ | ⟨new, made⟩
    · rw [made] at beyond
      have own := owned.bound key _ found
      rw [Function.update_of_ne, owned.made slot beyond]
      intro here
      rw [← here, owned.made slot beyond] at own
      cases own
    · rw [Function.update_of_ne (by omega), owned.made slot (by omega)]
  · intro other slot found
    rw [slots_put, lookup_slot] at found
    split at found
    · next same =>
        cases found
        rw [same, ownerAfter, Function.update_self]
    · exact kept slot other (owned.bound other slot (lookup_of_swept found))
  · intro other key' slot going
    by_cases same : other = reader
    · subst same
      rw [underWay_put_self] at going
      cases going
      exact Function.update_self ..
    · rw [underWay_put_of_ne same, underWay_slot] at going
      exact kept slot key' (owned.going other key' slot going)
  · intro slot entry found
    change (((cache.slot key).1).cells slot).entry = some entry at found
    rw [cells_slot] at found
    obtain ⟨early, key', fetcher, own, fetched⟩ := owned.fetched slot entry found
    have now :
        ((cache.slot key).1.put reader (.handed key (cache.slot key).2)).now = cache.now := by
      unfold Solutions.slot
      split <;> rfl
    rw [now]
    exact ⟨early, key', fetcher, kept slot key' own, fetched.append _⟩

/-- Nothing but a read makes a slot, and the clock does not go back. -/
theorem made_of_moved {cache next : Solutions Key} {event : Event Key}
    (onward : event.reads = false) (moved : Moved cache event next) :
    next.made = cache.made ∧ cache.now ≤ next.now := by
  cases moved with
  | read idle => cases onward
  | tick => exact ⟨rfl, Nat.le_add_right ..⟩
  | _ => exact ⟨rfl, le_rfl⟩

theorem owned_step {past : List (Event Key)} {cache next : Solutions Key} {event : Event Key}
    {owner : Nat → Option Key} (ran : run step start past = some cache)
    (owned : Owned past cache owner) (stepped : step cache event = some next) :
    ∃ owner, Owned (past ++ [event]) next owner := by
  cases reads : event.reads with
  | true =>
      cases event with
      | read reader key =>
          obtain ⟨-, rfl⟩ := step_read stepped
          exact ⟨_, owned_read owned reader key⟩
      | _ => cases reads
  | false =>
      have moved := moved_of_step stepped
      obtain ⟨slots, onward⟩ := step_onward reads stepped
      obtain ⟨made, later⟩ := made_of_moved reads moved
      refine ⟨owner, ?_, ?_, ?_, ?_⟩
      · intro slot beyond
        exact owned.made slot (made ▸ beyond)
      · intro key slot found
        rw [slots] at found
        exact owned.bound key slot found
      · intro reader key slot going
        exact owned.going reader key slot (onward reader _ going)
      · intro slot entry found
        rcases entry_of_moved moved found with before | ⟨reader, key, rfl, phase, at_now⟩
        · obtain ⟨early, key, fetcher, own, fetched⟩ := owned.fetched slot entry before
          exact ⟨early.trans later, key, fetcher, own, fetched.append _⟩
        · refine ⟨at_now ▸ later, key, reader, owned.going reader key slot ?_, ?_⟩
          · rw [underWay, phase, Reading.underWay]
          · exact ⟨past, [], cache, slot, rfl, ran, phase, at_now.symm⟩

theorem owned_start : Owned [] (start : Solutions Key) fun _ => none := by
  constructor
  · intro slot beyond
    rfl
  · intro key slot found
    cases found
  · intro reader key slot going
    cases going
  · intro slot entry found
    cases found

theorem Supported.append {past : List (Event Key)} {reader : Nat} {key : Key} {outcome : Outcome}
    {instant : Nat} (supported : Supported past reader key outcome instant)
    (later : List (Event Key)) : Supported (past ++ later) reader key outcome instant := by
  obtain ⟨fetcher, entry, told, fetched, rest⟩ := supported
  exact ⟨fetcher, entry, told, fetched.append later, rest⟩

/-- An event answers a reader with what it took from its slot or was just told. -/
theorem answered_step {past : List (Event Key)} {cache next : Solutions Key} {event : Event Key}
    {owner : Nat → Option Key} {reader : Nat} {key : Key} {outcome : Outcome} {instant : Nat}
    (ran : run step start past = some cache) (owned : Owned past cache owner)
    (moved : Moved cache event next)
    (answered : next.readers reader = .answered key outcome instant) :
    cache.readers reader = .answered key outcome instant ∨
      Supported (past ++ [event]) reader key outcome instant := by
  have others : ∀ {other : Nat} {reading : Reading Key},
      Function.update cache.readers other reading reader = .answered key outcome instant →
      cache.readers reader = .answered key outcome instant ∨
        reader = other ∧ reading = .answered key outcome instant := by
    intro other reading told
    by_cases same : reader = other
    · subst same
      rw [Function.update_self] at told
      exact .inr ⟨rfl, told⟩
    · rw [Function.update_of_ne same] at told
      exact .inl told
  cases moved with
  | read idle =>
      change Function.update ((cache.slot _).1).readers _ _ reader = _ at answered
      rw [readers_slot] at answered
      rcases others answered with before | ⟨-, told⟩
      · exact .inl before
      · cases told
  | @taken other key' slot entry phase found fresh =>
      rcases others answered with before | ⟨rfl, told⟩
      · exact .inl before
      · cases told
        have own := owned.going reader key slot (by rw [underWay, phase, Reading.underWay])
        obtain ⟨early, key', fetcher, own', fetched⟩ := owned.fetched slot entry found
        rw [own] at own'
        cases own'
        exact .inr ⟨fetcher, entry, rfl, fetched.append _, early, .inr ((fresh_iff early).mp fresh)⟩
  | @fetched other key' slot outcome' phase =>
      rcases others answered with before | ⟨rfl, told⟩
      · exact .inl before
      · cases told
        refine .inr ⟨reader, { fetchedAt := cache.now, outcome }, rfl, ?_, le_rfl, .inl rfl⟩
        exact ⟨past, [], cache, slot, rfl, ran, phase, rfl⟩
  | tick => exact .inl answered
  | _ =>
      rcases others answered with before | ⟨-, told⟩
      · exact .inl before
      · cases told

theorem supported_of_run {events : List (Event Key)} {cache : Solutions Key} {reader : Nat}
    {key : Key} {outcome : Outcome} {instant : Nat} (ran : run step start events = some cache)
    (answered : cache.readers reader = .answered key outcome instant) :
    Supported events reader key outcome instant := by
  have kept : (∃ owner, Owned events cache owner) ∧
      ∀ reader key outcome instant, cache.readers reader = .answered key outcome instant →
        Supported events reader key outcome instant := by
    apply history_of_run (fun past (cache : Solutions Key) => (∃ owner, Owned past cache owner) ∧
      ∀ reader key outcome instant, cache.readers reader = .answered key outcome instant →
        Supported past reader key outcome instant) _ _ ran
    · rintro past cache event next before ⟨⟨owner, owned⟩, supported⟩ stepped
      refine ⟨owned_step before owned stepped, ?_⟩
      intro reader key outcome instant answered
      rcases answered_step before owned (moved_of_step stepped) answered with earlier | now
      · exact (supported reader key outcome instant earlier).append _
      · exact now
    · refine ⟨⟨_, owned_start⟩, ?_⟩
      intro reader key outcome instant answered
      cases answered
  exact kept.2 reader key outcome instant answered

/-- In every run, what a read answers was fetched for the file it asked for, by
itself or less than that kind of outcome's time to live before. -/
theorem solution_answers_fresh {events : List (Event SolutionKey)}
    {cache : Solutions SolutionKey} (ran : run step start events = some cache) {reader : Nat}
    {repo : GitHubRepo} {source : SolutionsSource} {studentFile : RepoPath}
    (asked : .read reader (readKey repo source studentFile) ∈ events) {key : SolutionKey}
    {outcome : Outcome} {instant : Nat}
    (answered : cache.readers reader = .answered key outcome instant) :
    key = readKey repo source studentFile ∧
      Supported events reader (readKey repo source studentFile) outcome instant := by
  have about := about_of_run ran asked
  rw [answered] at about
  have same : key = readKey repo source studentFile := about
  exact ⟨same, same ▸ supported_of_run ran answered⟩

theorem isSafeSegment_acme : isSafeSegment "acme".toList = true := by decide

theorem isSafeSegment_cs101 : isSafeSegment "cs101".toList = true := by decide

/-- A course's repository, its folder of solutions and a student's file. -/
def courseRepo : GitHubRepo where
  owner := "acme".toList
  name := "cs101".toList
  ownerSafe := isSafeSegment_acme
  nameSafe := isSafeSegment_cs101

def courseSolutions : SolutionsSource where
  gitRef := none
  dir := some { text := "solutions".toList, plain := by decide }
  configured := rfl

def mainFile : RepoPath where
  text := "main.c".toList
  plain := by decide

/-- The second reader is told, ten seconds later, that there still is no such
file. -/
theorem solution_answers_fresh_remembered :
    ∃ (events : List (Event SolutionKey)) (cache : Solutions SolutionKey),
      run step start events = some cache ∧
      cache.readers 1 =
        .answered (readKey courseRepo courseSolutions mainFile) (.ok none) 10000000000 ∧
      Supported events 1 (readKey courseRepo courseSolutions mainFile) (.ok none)
        10000000000 := by
  have ran : ∃ cache : Solutions SolutionKey,
      run step start
          [.read 0 (readKey courseRepo courseSolutions mainFile), .lock 0, .look 0,
            .fetched 0 (.ok none), .tick 10000000000,
            .read 1 (readKey courseRepo courseSolutions mainFile), .lock 1, .look 1] =
        some cache ∧
      cache.readers 1 =
        .answered (readKey courseRepo courseSolutions mainFile) (.ok none) 10000000000 :=
    ⟨_, rfl, rfl⟩
  obtain ⟨cache, ran, answered⟩ := ran
  refine ⟨_, cache, ran, answered, ?_⟩
  exact (solution_answers_fresh ran (by simp) answered).2

end Solutions

end Hermione
