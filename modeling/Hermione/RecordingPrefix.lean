import Hermione.Recording
import Hermione.SessionEndings

/-!
# A recording is a gap-free prefix

Of a stream with one start the table holds, between any two steps, the first so
many of the chunks that came after it, numbered from 0 on; and the others are on
their way, in the batch that is being written and then in the buffer.
-/

namespace Hermione

/-- Every row of `terminal_events` is of a session, as its foreign key has it. -/
def Backend.Referenced (backend : Backend) : Prop :=
  ∀ row ∈ backend.events, (backend.sessions row.sessionId).isSome

namespace SessionIngest

/-! ### What the stream brought -/

def Event.isStart : Event → Bool
  | .start _ _ => true
  | _ => false

/-- The identifier drawn at a start. -/
def Event.drawn : Event → Option Uuid
  | .start id _ => some id
  | _ => none

def Event.toChunk : Event → Option TerminalChunk
  | .chunk piece => some piece
  | _ => none

/-- The chunks received after the first start. -/
def chunksAfterStart (events : List Event) : List TerminalChunk :=
  (events.dropWhile fun event => !event.isStart).filterMap Event.toChunk

/-- The rows of a session's chunks, numbered in order of arrival. -/
def chunkRows (codecs : Codecs) (id : Uuid) (chunks : List TerminalChunk) : List TerminalRow :=
  chunks.mapIdx fun seq chunk => chunkRow codecs id seq chunk

/-- Of the chunks received, the first so many are rows of the table, and unless the
call failed the others are on their way there.  A call that succeeded tells how many
rows there are. -/
structure GapFree (codecs : Codecs) (id : Uuid) (chunks : List TerminalChunk)
    (state : State) : Prop where
  stored : ∃ k ≤ chunks.length,
    rowsOf id state.backend.events = chunkRows codecs id (chunks.take k) ∧
      (¬ state.call.phase.Failed →
        state.call.pending = (chunkRows codecs id chunks).drop k)
  summed : ∀ summary, state.call.phase = .returned (.ok summary) →
    summary.chunksReceived = (rowsOf id state.backend.events).length

section Events

variable {past : List Event} {event : Event}

theorem chunksAfterStart_of_begun (begun : past.any Event.isStart = true) :
    chunksAfterStart (past ++ [event]) = chunksAfterStart past ++ event.toChunk.toList := by
  obtain ⟨start, member, starts⟩ := List.any_eq_true.mp begun
  have some_left : past.dropWhile (fun event => !event.isStart) ≠ [] := by
    intro nothing
    have := List.dropWhile_eq_nil_iff.mp nothing start member
    simp [starts] at this
  rw [chunksAfterStart, chunksAfterStart, List.dropWhile_append, if_neg (by simpa using some_left),
    List.filterMap_append]
  cases event <;> rfl

theorem chunksAfterStart_of_not_begun (waiting : past.any Event.isStart = false) :
    chunksAfterStart past = [] ∧ chunksAfterStart (past ++ [event]) = [] := by
  have none_left : past.dropWhile (fun event => !event.isStart) = [] := by
    rw [List.dropWhile_eq_nil_iff]
    simpa using waiting
  constructor
  · rw [chunksAfterStart, none_left]
    rfl
  · rw [chunksAfterStart, List.dropWhile_append, if_pos (by simp [none_left])]
    cases event <;> simp [Event.isStart, Event.toChunk]

end Events

/-- A step of the call leaves the chunks as they are, or adds the one it brought. -/
theorem chunksAfterStart_concat (past : List Event) (event : Event) :
    chunksAfterStart (past ++ [event]) = chunksAfterStart past ∨
      chunksAfterStart (past ++ [event]) = chunksAfterStart past ++ event.toChunk.toList := by
  cases begun : past.any Event.isStart with
  | true => exact .inr (chunksAfterStart_of_begun begun)
  | false =>
      obtain ⟨nothing, still⟩ := chunksAfterStart_of_not_begun begun
      exact .inl (still.trans nothing.symm)

theorem chunkRows_concat (codecs : Codecs) (id : Uuid) (chunks : List TerminalChunk)
    (chunk : TerminalChunk) :
    chunkRows codecs id (chunks ++ [chunk]) =
      chunkRows codecs id chunks ++ [chunkRow codecs id chunks.length chunk] := by
  rw [chunkRows, List.mapIdx_concat]
  rfl

theorem chunkRows_take (codecs : Codecs) (id : Uuid) (chunks : List TerminalChunk) (k : Nat) :
    chunkRows codecs id (chunks.take k) = (chunkRows codecs id chunks).take k := by
  apply List.ext_getElem?
  intro index
  simp only [chunkRows, List.getElem?_mapIdx, List.getElem?_take]
  split <;> rfl

section Steps

variable {codecs : Codecs} {id : Uuid} {state next : State} {event : Event}

/-! ### Whether a session was started -/

/-- A session was started, or is being. -/
def Call.Begun (call : Call) : Prop :=
  call.sessionId.isSome ∨ ¬ call.phase.Quiet

theorem Call.begun_iff {call moved : Call} (same : moved.sessionId = call.sessionId)
    (before : call.phase.Quiet) (after : moved.phase.Quiet) : moved.Begun ↔ call.Begun := by
  simp [Begun, same, before, after]

/-- Only a start begins a session, and only a failure ends what it began. -/
theorem begun_of_moves (moves : Moves codecs state event next)
    (going : ¬ next.call.phase.Done) (other : event.isStart = false) :
    next.call.Begun ↔ state.call.Begun := by
  cases moves with
  | begin => cases other
  | early | blank | watch | unwatch => rfl
  | chunk current chunk here opened => exact .rfl
  | full current chunk here =>
      apply Call.begun_iff (flush_sessionId _ _) (here ▸ trivial) (quiet_flush _ _)
  | finish current finish here | closed here | tick here =>
      exact Call.begun_iff (flush_sessionId _ _) (here ▸ trivial) (quiet_flush _ _)
  | flushed batch resume here =>
      exact Call.begun_iff (afterFlush_sessionId _ _) (here ▸ trivial) (quiet_afterFlush _ _)
  | counted current resume here | countFailed current resume error here =>
      exact Call.begun_iff (afterCount_sessionId _ _) (here ▸ trivial) (quiet_afterCount _ _)
  | resize current resize here | resized current resize here
  | resizeFailed current resize error here =>
      exact Call.begun_iff rfl (here ▸ trivial) trivial
  | finalized current resume here | finalizeFailed current resume error here =>
      cases resume <;> exact Call.begun_iff rfl (here ▸ trivial) trivial
  | inserted row here => simp [Call.Begun, here, Phase.Quiet]
  | opened current here => simp [Call.Begun, here, Phase.Quiet]
  | broken | insertFailed | flushFailed | removed => exact (going trivial).elim

/-- A start is only read where none is under way, and then one is. -/
theorem begun_of_start {start : SessionStart}
    (stepped : step codecs state (.start id start) = some next) : next.call.Begun := by
  simp only [step] at stepped
  split at stepped
  · obtain rfl := Option.some.inj stepped
    exact .inr not_false
  · cases stepped

/-! ### The rows that were taken -/

/-- A chunk is taken into the session there is. -/
theorem accepted_of_chunk {chunk : TerminalChunk}
    (stepped : step codecs state (.chunk chunk) = some next) :
    state.call.phase = .selecting ∧
      next.record.accepted = state.record.accepted ++
        match state.call.sessionId with
        | some id => [chunkRow codecs id state.call.seq chunk]
        | none => [] := by
  simp only [step] at stepped
  split at stepped
  · next selecting =>
      refine ⟨selecting, ?_⟩
      simp only [select] at stepped
      split at stepped
      · next none =>
          obtain rfl := Option.some.inj stepped
          rw [none, List.append_nil]
      · next id opened =>
          rw [opened]
          obtain rfl := Option.some.inj stepped
          split
          · exact flush_accepted _ _
          · rfl
  · cases stepped

/-- Nothing else is taken. -/
theorem accepted_of_moves (moves : Moves codecs state event next)
    (other : event.toChunk = none) : next.record.accepted = state.record.accepted := by
  cases moves with
  | chunk | full => cases other
  | finish | closed | tick => exact flush_accepted _ _
  | _ => rfl

/-! ### What the call holds back -/

/-- A flush under way has emptied the buffer, and nothing enters it after the last.
The summary counts what was taken. -/
def Settled (call : Call) : Prop :=
  match call.phase with
  | .flushing _ _ | .counting .drain | .finalizing .drain | .removing => call.buffer = []
  | .returned (.ok summary) => call.buffer = [] ∧ summary.chunksReceived = call.seq
  | _ => True

theorem settled_afterCount {call : Call} {resume : Resume}
    (drained : resume = .drain → call.buffer = []) : Settled (afterCount call resume) := by
  cases resume with
  | chunk | tick | finish => trivial
  | drain =>
      have empty := drained rfl
      simp only [afterCount]
      split <;> exact empty

theorem settled_afterFlush {call : Call} (empty : call.buffer = []) (resume : Resume) :
    Settled (afterFlush call resume) := by
  by_cases chunk : resume = .chunk
  · rw [chunk, afterFlush_chunk]
    trivial
  · rcases Option.eq_none_or_eq_some call.sessionId with none | ⟨id, opened⟩
    · rw [afterFlush_of_none none]
      split
      · exact ⟨empty, rfl⟩
      · trivial
    · rw [afterFlush_of_some opened chunk]
      unfold persistErrorCount
      split
      · exact settled_afterCount fun _ => empty
      · cases resume <;> first | exact empty | trivial

theorem settled_flush (state : State) (resume : Resume) : Settled (flush state resume).call := by
  unfold flush
  split
  · next empty => exact settled_afterFlush (List.isEmpty_iff.mp empty) resume
  · rfl

theorem Settled.step (settled : Settled state.call) (moves : Moves codecs state event next) :
    Settled next.call := by
  cases moves with
  | early | blank | watch | unwatch => exact settled
  | begin | resize | broken | inserted | insertFailed | flushFailed | resized | resizeFailed
  | opened => trivial
  | chunk current chunk here =>
      simp [Settled, accept, here]
  | full | finish | closed | tick => exact settled_flush _ _
  | flushed batch resume here =>
      rw [Settled, here] at settled
      exact settled_afterFlush settled resume
  | counted current resume here | countFailed current resume error here =>
      rw [Settled, here] at settled
      apply settled_afterCount
      rintro rfl
      exact settled
  | finalized current resume here | finalizeFailed current resume error here =>
      rw [Settled, here] at settled
      cases resume with
      | drain => exact settled
      | _ => trivial
  | removed current here =>
      rw [Settled, here] at settled
      exact ⟨settled, rfl⟩

/-! ### Every row is on its way -/

theorem not_failed_of_moves (moves : Moves codecs state event next)
    (going : ¬ next.call.phase.Failed) : ¬ state.call.phase.Failed := by
  intro failed
  obtain ⟨-, call, -⟩ := not_moves_of_done failed.done moves
  rw [call] at going
  exact going failed

/-- A step that does not fail the call loses no row. -/
theorem whole_of_moves (moves : Moves codecs state event next) (recorded : Recorded id state)
    (whole : rowsOf id state.backend.events ++ state.call.pending = state.record.accepted)
    (going : ¬ next.call.phase.Failed) :
    rowsOf id next.backend.events ++ next.call.pending = next.record.accepted := by
  cases books_of_moves moves with
  | same accepted seq events pending =>
      rw [accepted, events, pending]
      exact whole
  | took current chunk opened accepted seq events pending =>
      rw [accepted, events, pending, ← List.append_assoc, whole]
  | wrote batch accepted seq events pending =>
      have mine (row : TerminalRow) (member : row ∈ batch) : row.sessionId = id := by
        apply recorded.mine
        rw [← whole, pending]
        simp [member]
      rw [accepted, events, rowsOf_append _ _ mine, List.append_assoc, ← pending]
      exact whole
  | lost batch accepted seq events pending failed => exact (going failed).elim

/-! ### A call and the events it was given -/

/-- How a call stands to the events so far. -/
structure Follows (codecs : Codecs) (id : Uuid) (past : List Event) (state : State) : Prop where
  recorded : Recorded id state
  settled : Settled state.call
  begun : ¬ state.call.phase.Done → (state.call.Begun ↔ past.any Event.isStart = true)
  accepted : state.record.accepted = chunkRows codecs id (chunksAfterStart past)
  whole : ¬ state.call.phase.Failed →
    rowsOf id state.backend.events ++ state.call.pending = state.record.accepted

variable {past : List Event}

/-- The chunks since the start are as many as were numbered. -/
theorem Follows.length_chunks (follows : Follows codecs id past state) :
    (chunksAfterStart past).length = state.call.seq := by
  have numbered := congrArg List.length follows.recorded.numbered
  rw [follows.accepted] at numbered
  simpa [chunkRows] using numbered

theorem Follows.begun_step (follows : Follows codecs id past state)
    (stepped : step codecs state event = some next) (going : ¬ next.call.phase.Done) :
    next.call.Begun ↔ (past ++ [event]).any Event.isStart = true := by
  have moves := moves_of_step stepped
  have still : ¬ state.call.phase.Done := by
    intro done
    obtain ⟨-, call, -⟩ := not_moves_of_done done moves
    rw [call] at going
    exact going done
  cases starts : event.isStart with
  | true =>
      cases event with
      | start drawn start =>
          exact iff_of_true (begun_of_start stepped) (by simp [Event.isStart])
      | _ => cases starts
  | false =>
      rw [begun_of_moves moves going starts, follows.begun still]
      simp [starts]

theorem Follows.accepted_step (follows : Follows codecs id past state)
    (stepped : step codecs state event = some next) :
    next.record.accepted = chunkRows codecs id (chunksAfterStart (past ++ [event])) := by
  cases event with
  | chunk chunk =>
      obtain ⟨selecting, accepted⟩ := accepted_of_chunk stepped
      have going : ¬ state.call.phase.Done := by simp [selecting, Phase.Done]
      rw [accepted, follows.accepted]
      cases opened : state.call.sessionId with
      | none =>
          have waiting : past.any Event.isStart = false := by
            rw [← Bool.not_eq_true, ← follows.begun going]
            simp [Call.Begun, opened, selecting, Phase.Quiet]
          obtain ⟨nothing, still⟩ : chunksAfterStart past = [] ∧
              chunksAfterStart (past ++ [.chunk chunk]) = [] :=
            chunksAfterStart_of_not_begun waiting
          rw [nothing, still]
          rfl
      | some current =>
          have begun : past.any Event.isStart = true := by
            rw [← follows.begun going]
            simp [Call.Begun, opened]
          have taken := follows.length_chunks.symm
          obtain rfl := follows.recorded.named.current current opened
          rw [chunksAfterStart_of_begun begun, taken]
          exact (chunkRows_concat codecs current _ chunk).symm
  | _ =>
      rw [accepted_of_moves (moves_of_step stepped) rfl, follows.accepted]
      cases begun : past.any Event.isStart with
      | true =>
          rw [chunksAfterStart_of_begun begun]
          exact congrArg (chunkRows codecs id) (List.append_nil _).symm
      | false =>
          obtain ⟨nothing, still⟩ := chunksAfterStart_of_not_begun begun
          rw [nothing, still]

theorem Follows.step (follows : Follows codecs id past state)
    (single : ∀ drawn start, event = .start drawn start → drawn = id)
    (stepped : step codecs state event = some next) :
    Follows codecs id (past ++ [event]) next := by
  have moves := moves_of_step stepped
  constructor
  · exact follows.recorded.step single moves
  · exact follows.settled.step moves
  · exact follows.begun_step stepped
  · exact follows.accepted_step stepped
  · intro going
    have whole := follows.whole (not_failed_of_moves moves going)
    exact whole_of_moves moves follows.recorded whole going

theorem follows_start {backend : Backend} {admitted : Except Status (Uuid × Option Str)}
    (unused : rowsOf id backend.events = []) :
    Follows codecs id [] (start backend admitted) := by
  constructor
  · exact recorded_start unused
  · cases admitted <;> simp [start, Settled]
  · cases admitted <;> simp [start, Call.Begun, Phase.Quiet, Phase.Done]
  · rfl
  · cases admitted <;> simp [start, unused, Call.pending]

/-- What a call that follows its events has stored. -/
theorem Follows.gapFree (follows : Follows codecs id past state) :
    GapFree codecs id (chunksAfterStart past) state := by
  have accepted := follows.accepted
  constructor
  · obtain ⟨rest, split⟩ := follows.recorded.stored
    have length_le : (rowsOf id state.backend.events).length ≤ (chunksAfterStart past).length := by
      have := congrArg List.length (split.trans accepted)
      simp only [chunkRows, List.length_append, List.length_mapIdx] at this
      omega
    refine ⟨_, length_le, ?_, ?_⟩
    · rw [chunkRows_take, ← accepted, ← split, List.take_left]
    · intro going
      rw [← accepted, ← follows.whole going, List.drop_left]
  · intro summary returned
    have settled := follows.settled
    rw [Settled, returned] at settled
    have whole := follows.whole (by simp [returned, Phase.Failed])
    rw [Call.pending, returned, settled.1, List.append_nil] at whole
    have numbered := congrArg List.length follows.recorded.numbered
    rw [settled.2, whole]
    simpa using numbered.symm

/-- No call creates a session that is there. -/
theorem not_created_of_moves (moves : Moves codecs state event next)
    (used : (state.backend.sessions id).isSome ∧ id ∉ state.record.created) :
    (next.backend.sessions id).isSome ∧ id ∉ next.record.created := by
  have flushed (from_ : State) (resume : Resume)
      (used : (from_.backend.sessions id).isSome ∧ id ∉ from_.record.created) :
      ((flush from_ resume).backend.sessions id).isSome ∧
        id ∉ (flush from_ resume).record.created := by
    rw [flush_backend]
    refine ⟨used.1, ?_⟩
    unfold flush
    split <;> exact used.2
  cases moves with
  | inserted row here absent =>
      have different : id ≠ row.id := by
        rintro rfl
        simp [absent] at used
      simp [used, different]
  | full current chunk =>
      apply flushed
      rw [accept_sessions]
      exact used
  | finish | closed | tick => exact flushed state _ used
  | counted | resized | finalized =>
      refine ⟨?_, used.2⟩
      exact updateSession_isSome.trans used.1
  | chunk current chunk =>
      rw [accept_sessions]
      exact used
  | _ => exact used

end Steps

open EventRuns

/-- Between any two steps of a stream with one start, what the table holds of its
session is a gap-free prefix of the chunks received since. -/
theorem recording_gap_free (codecs : Codecs) (backend : Backend)
    (referenced : backend.Referenced) (admitted : Except Status (Uuid × Option Str))
    (events : List Event) (id : Uuid) (single : events.filterMap Event.drawn = [id])
    (state : State) (ran : run (step codecs) (start backend admitted) events = some state)
    (created : id ∈ state.record.created) :
    GapFree codecs id (chunksAfterStart events) state := by
  have fresh : backend.sessions id = none := by
    by_contra used
    let stale := fun state : State =>
      (state.backend.sessions id).isSome ∧ id ∉ state.record.created
    have initially : stale (start backend admitted) :=
      ⟨Option.isSome_iff_ne_none.mpr used, by simp [start]⟩
    have never : stale state := by
      apply invariant_of_run _ initially ran
      intro before event next used stepped
      exact not_created_of_moves (moves_of_step stepped) used
    exact never.2 created
  have unused : rowsOf id backend.events = [] := by
    rw [rowsOf, List.filter_eq_nil_iff]
    intro row member mine
    have there := referenced row member
    rw [of_decide_eq_true mine, fresh] at there
    cases there
  have follows := history_of_run
    (fun past state => (∀ drawn ∈ past.filterMap Event.drawn, drawn = id) →
      Follows codecs id past state)
    (by
      intro past state event next _ follows stepped mine
      rw [List.filterMap_append] at mine
      apply (follows fun drawn member => mine drawn (List.mem_append_left _ member)).step
      · rintro drawn start rfl
        exact mine drawn (List.mem_append_right _ (List.mem_singleton_self drawn))
      · exact stepped)
    (fun _ => follows_start unused) ran
  apply (follows _).gapFree
  rw [single]
  exact fun drawn member => List.mem_singleton.mp member

/-- A recorder that says hello and leaves. -/
theorem recording_gap_free_farewell :
    ∃ state, run (step Codecs.hello) (start Backend.empty (.ok (1, none))) farewell =
        some state ∧
      GapFree Codecs.hello 7 (chunksAfterStart farewell) state :=
  ⟨_, rfl, recording_gap_free Codecs.hello Backend.empty nofun (.ok (1, none)) farewell 7 rfl _
    rfl (by decide)⟩

/-- While a flush is under way the chunks it writes are neither rows nor in the
buffer. -/
theorem not_buffered_flushing :
    let events : List Event :=
      [.start 7 ⟨"alice".toList, "bash".toList, 80, 24, []⟩, .stored, .locked,
        .chunk ⟨1, [104, 105], 5⟩, .tick]
    ∃ state, run (step Codecs.hello) (start Backend.empty (.ok (1, none))) events =
        some state ∧ ¬ state.call.phase.Failed ∧
      ¬ ∃ k, rowsOf 7 state.backend.events =
          chunkRows Codecs.hello 7 ((chunksAfterStart events).take k) ∧
        state.call.buffer = (chunkRows Codecs.hello 7 (chunksAfterStart events)).drop k := by
  refine ⟨_, rfl, id, ?_⟩
  rintro ⟨k, stored, buffered⟩
  change [] = chunkRows Codecs.hello 7 ([⟨1, [104, 105], 5⟩].take k) at stored
  change [] = (chunkRows Codecs.hello 7 [⟨1, [104, 105], 5⟩]).drop k at buffered
  cases k with
  | zero => cases buffered
  | succ k => simp [chunkRows] at stored

end SessionIngest

end Hermione
