import Hermione.SessionIngest

/-!
# The rows of a recording

A recorder's chunks become rows that wait in the call's buffer, are taken by a
flush and reach the table in the order they came in.  Only a flush that fails
loses any, and it ends the call.
-/

namespace Hermione

namespace SessionIngest

variable {codecs : Codecs} {id : Uuid} {state next : State} {event : Event}

/-- The call returned a status. -/
def Phase.Failed : Phase → Prop
  | .returned (.error _) => True
  | _ => False

theorem Phase.Failed.done {phase : Phase} (failed : phase.Failed) : phase.Done := by
  unfold Phase.Failed at failed
  split at failed
  · trivial
  · exact failed.elim

/-- What a step does to the rows. -/
inductive Books (codecs : Codecs) (state next : State) : Prop where
  | same (accepted : next.record.accepted = state.record.accepted)
      (seq : next.call.seq = state.call.seq)
      (events : next.backend.events = state.backend.events)
      (pending : next.call.pending = state.call.pending)
  | took (current : Uuid) (chunk : TerminalChunk)
      (opened : state.call.sessionId = some current)
      (accepted : next.record.accepted =
        state.record.accepted ++ [chunkRow codecs current state.call.seq chunk])
      (seq : next.call.seq = state.call.seq + 1)
      (events : next.backend.events = state.backend.events)
      (pending : next.call.pending =
        state.call.pending ++ [chunkRow codecs current state.call.seq chunk])
  | wrote (batch : List TerminalRow)
      (accepted : next.record.accepted = state.record.accepted)
      (seq : next.call.seq = state.call.seq)
      (events : next.backend.events = state.backend.events ++ batch)
      (pending : state.call.pending = batch ++ next.call.pending)
  | lost (batch : List TerminalRow)
      (accepted : next.record.accepted = state.record.accepted)
      (seq : next.call.seq = state.call.seq)
      (events : next.backend.events = state.backend.events)
      (pending : state.call.pending = batch ++ next.call.pending)
      (failed : next.call.phase.Failed)

theorem pending_of_selecting {call : Call} (selecting : call.phase = .selecting) :
    call.pending = call.buffer := by
  simp [Call.pending, selecting]

theorem books_of_moves (moves : Moves codecs state event next) :
    Books codecs state next := by
  cases moves with
  | chunk current chunk selecting opened =>
      have still : (accept codecs state current chunk).call.phase = .selecting := selecting
      refine .took current chunk opened rfl rfl (by simp) ?_
      rw [pending_of_selecting still, pending_of_selecting selecting]
      rfl
  | full current chunk selecting opened full =>
      refine .took current chunk opened (by simp [accept]) (by simp [accept]) (by simp) ?_
      rw [flush_pending, pending_of_selecting selecting]
      rfl
  | finish current finish selecting opened | closed selecting | tick selecting =>
      refine .same (by simp) (by simp) (by simp) ?_
      rw [flush_pending, pending_of_selecting selecting]
  | flushed batch resume flushing =>
      refine .wrote batch rfl (by simp) rfl ?_
      rw [afterFlush_pending]
      simp [Call.pending, flushing]
  | flushFailed batch resume error flushing =>
      refine .lost batch rfl rfl rfl ?_ trivial
      simp [Call.pending, flushing, Call.returning]
  | early | blank => exact .same rfl rfl rfl rfl
  | begin id start here | resize id resize here | broken status here
  | inserted row here | insertFailed row error here | resized id resize here
  | resizeFailed id resize error here | opened id here | removed id here =>
      exact .same rfl rfl rfl (by simp [Call.pending, Call.returning, here])
  | counted id resume here | countFailed id resume error here =>
      refine .same rfl (by simp) rfl ?_
      rw [afterCount_pending]
      simp [Call.pending, here]
  | finalized id resume here | finalizeFailed id resume error here =>
      cases resume <;>
        exact .same rfl rfl rfl (by simp [Call.pending, afterFinalize, here])
  | watch | unwatch => exact .same rfl rfl rfl rfl

/-- Where a flush leaves the call, it is neither starting a session nor opening its
channel. -/
theorem flush_phase (state : State) (resume : Resume) :
    (∀ row, (flush state resume).call.phase ≠ .inserting row) ∧
      ∀ current, (flush state resume).call.phase ≠ .opening current := by
  unfold flush
  split
  · obtain ⟨phase, same, reached⟩ := afterFlush_cases state.call resume
    simp only [same]
    rcases reached with ⟨summary, rfl⟩ | rfl | rfl | ⟨resume, rfl⟩ | ⟨resume, rfl⟩ <;> simp
  · simp

/-- The session a call is about, started, opened or recorded. -/
structure Named (id : Uuid) (call : Call) : Prop where
  current : ∀ current, call.sessionId = some current → current = id
  inserting : ∀ row, call.phase = .inserting row → row.id = id
  opening : ∀ current, call.phase = .opening current → current = id

theorem Named.moved {call : Call} (named : Named id call) {phase : Phase}
    (inserting : ∀ row, phase ≠ .inserting row) (opening : ∀ current, phase ≠ .opening current) :
    Named id { call with phase } :=
  ⟨named.current, fun row here => (inserting row here).elim,
    fun current here => (opening current here).elim⟩

theorem Named.step (named : Named id state.call)
    (single : ∀ drawn start, event = .start drawn start → drawn = id)
    (moves : Moves codecs state event next) :
    Named id next.call := by
  have flushed (other : State) (same : other.call.sessionId = state.call.sessionId)
      (resume : Resume) : Named id (flush other resume).call := by
    obtain ⟨inserting, opening⟩ := flush_phase other resume
    refine ⟨?_, fun row here => (inserting row here).elim,
      fun current here => (opening current here).elim⟩
    rw [flush_sessionId, same]
    exact named.current
  have onwards (call : Call) (same : call.sessionId = state.call.sessionId)
      (inserting : ∀ row, call.phase ≠ .inserting row)
      (opening : ∀ current, call.phase ≠ .opening current) : Named id call :=
    ⟨same ▸ named.current, fun row here => (inserting row here).elim,
      fun current here => (opening current here).elim⟩
  cases moves with
  | begin drawn start selecting =>
      refine ⟨named.current, ?_, by simp⟩
      intro row here
      obtain rfl := Phase.inserting.inj here
      exact single drawn start rfl
  | early | blank | watch | unwatch => exact named
  | chunk current chunk selecting opened =>
      exact ⟨named.current, named.inserting, named.opening⟩
  | full current chunk => exact flushed (accept codecs state current chunk) rfl _
  | finish | closed | tick => exact flushed state rfl _
  | inserted row inserting absent =>
      refine ⟨named.current, by simp, ?_⟩
      intro current here
      obtain rfl := Phase.opening.inj here
      exact named.inserting row inserting
  | opened current opening =>
      refine ⟨?_, by simp, by simp⟩
      intro other here
      obtain rfl := Option.some.inj here
      exact named.opening current opening
  | flushed batch resume flushing =>
      obtain ⟨phase, same, reached⟩ := afterFlush_cases state.call resume
      simp only [same]
      rcases reached with ⟨summary, rfl⟩ | rfl | rfl | ⟨resume, rfl⟩ | ⟨resume, rfl⟩ <;>
        exact named.moved (by simp) (by simp)
  | counted current resume counting opened =>
      obtain ⟨phase, same, reached⟩ := afterCount_cases
        { state.call with persistedErrorCount := state.call.errorCount } resume
      simp only [same]
      rcases reached with rfl | rfl | ⟨resume, rfl⟩ <;>
        exact onwards _ rfl (by simp) (by simp)
  | countFailed current resume error counting opened =>
      obtain ⟨phase, same, reached⟩ := afterCount_cases state.call resume
      simp only [same]
      rcases reached with rfl | rfl | ⟨resume, rfl⟩ <;>
        exact named.moved (by simp) (by simp)
  | finalized current resume finalizing opened
  | finalizeFailed current resume error finalizing opened =>
      cases resume <;> exact onwards _ rfl (by simp [afterFinalize]) (by simp [afterFinalize])
  | resize | broken | insertFailed | flushFailed | resized | resizeFailed | removed =>
      exact onwards _ rfl (by simp [Call.returning]) (by simp [Call.returning])

/-- What a stream of one session has done so far. -/
structure Recorded (id : Uuid) (state : State) : Prop where
  named : Named id state.call
  numbered : state.record.accepted.map TerminalRow.seq = List.range state.call.seq
  mine : ∀ row ∈ state.record.accepted, row.sessionId = id
  /-- No row is lost before the call is over. -/
  kept : rowsOf id state.backend.events ++ state.call.pending = state.record.accepted ∨
    state.call.phase.Done ∧
      rowsOf id state.backend.events <+: state.record.accepted

theorem recorded_start {backend : Backend} {admitted : Except Status (Uuid × Option Str)}
    (unused : rowsOf id backend.events = []) : Recorded id (start backend admitted) := by
  constructor
  · cases admitted <;> exact ⟨nofun, nofun, nofun⟩
  · rfl
  · nofun
  · cases admitted <;> simp [start, unused, Call.pending]

theorem not_moves_of_done (done : state.call.phase.Done)
    (moves : Moves codecs state event next) :
    next.backend.events = state.backend.events ∧ next.call = state.call ∧
      next.record = state.record := by
  cases moves with
  | watch | unwatch => exact ⟨rfl, rfl, rfl⟩
  | early event here | blank here | begin id start here | resize id resize here
  | broken status here | inserted row here | insertFailed row error here
  | resized id resize here | resizeFailed id resize error here | opened id here
  | removed id here | counted id resume here | countFailed id resume error here
  | finalized id resume here | finalizeFailed id resume error here
  | chunk id chunk here | full id chunk here | finish id finish here | closed here
  | tick here | flushed batch resume here | flushFailed batch resume error here =>
      rw [here] at done
      exact done.elim

theorem rowsOf_append (events batch : List TerminalRow)
    (mine : ∀ row ∈ batch, row.sessionId = id) :
    rowsOf id (events ++ batch) = rowsOf id events ++ batch := by
  rw [rowsOf, List.filter_append, rowsOf]
  congr 1
  rw [List.filter_eq_self]
  simpa using mine

theorem Recorded.step (recorded : Recorded id state)
    (single : ∀ drawn start, event = .start drawn start → drawn = id)
    (moves : Moves codecs state event next) :
    Recorded id next := by
  have named := recorded.named.step single moves
  rcases recorded.kept with kept | ⟨done, leading⟩
  · cases books_of_moves moves with
    | same accepted seq events pending =>
        refine ⟨named, ?_, ?_, .inl ?_⟩
        · rw [accepted, seq]
          exact recorded.numbered
        · rw [accepted]
          exact recorded.mine
        · rw [accepted, events, pending]
          exact kept
    | took current chunk opened accepted seq events pending =>
        refine ⟨named, ?_, ?_, .inl ?_⟩
        · rw [accepted, seq, List.map_append, recorded.numbered, List.range_succ]
          rfl
        · rw [accepted]
          intro row member
          rcases List.mem_append.mp member with before | last
          · exact recorded.mine row before
          · rw [List.mem_singleton.mp last]
            exact recorded.named.current current opened
        · rw [accepted, events, pending, ← List.append_assoc, kept]
    | wrote batch accepted seq events pending =>
        have mine (row : TerminalRow) (member : row ∈ batch) : row.sessionId = id := by
          apply recorded.mine
          rw [← kept, pending]
          simp [member]
        refine ⟨named, ?_, ?_, .inl ?_⟩
        · rw [accepted, seq]
          exact recorded.numbered
        · rw [accepted]
          exact recorded.mine
        · rw [accepted, events, rowsOf_append _ _ mine, List.append_assoc, ← pending]
          exact kept
    | lost batch accepted seq events pending failed =>
        refine ⟨named, ?_, ?_, .inr ⟨failed.done, ?_⟩⟩
        · rw [accepted, seq]
          exact recorded.numbered
        · rw [accepted]
          exact recorded.mine
        · rw [accepted, events]
          exact ⟨_, kept⟩
  · obtain ⟨events, call, record⟩ := not_moves_of_done done moves
    refine ⟨named, ?_, ?_, .inr ⟨?_, ?_⟩⟩
    · rw [record, call]
      exact recorded.numbered
    · rw [record]
      exact recorded.mine
    · rw [call]
      exact done
    · rw [record, events]
      exact leading

/-- The table holds the first so many of the chunks that were taken. -/
theorem Recorded.stored (recorded : Recorded id state) :
    rowsOf id state.backend.events <+: state.record.accepted := by
  rcases recorded.kept with whole | ⟨-, leading⟩
  · exact ⟨_, whole⟩
  · exact leading

/-- They are numbered from 0 on. -/
theorem Recorded.stored_seq (recorded : Recorded id state) :
    (rowsOf id state.backend.events).map TerminalRow.seq =
      List.range (rowsOf id state.backend.events).length := by
  obtain ⟨rest, whole⟩ := recorded.stored
  have numbered := recorded.numbered
  rw [← whole, List.map_append] at numbered
  have length_le : (rowsOf id state.backend.events).length ≤ state.call.seq := by
    have := congrArg List.length numbered
    simp only [List.length_append, List.length_map, List.length_range] at this
    omega
  have leading := congrArg (List.take (rowsOf id state.backend.events).length) numbered
  rw [List.take_left' (List.length_map _), List.take_range, min_eq_left length_le] at leading
  exact leading

end SessionIngest

end Hermione
