import Hermione.SessionIngest

/-!
# What a recorder's stream leaves behind

A call that returns should have ended every session it started, handed every
chunk it took to a flush and left nothing in the hub.  It does so exactly when,
from its first session on, the client starts no other, the transport holds and
no flush fails: each of the early returns leaves the session active, and a second
start takes the place of the first.
-/

namespace Hermione

namespace SessionIngest

structure LeavesNothingOpen (state : State) : Prop where
  ended : ∀ id ∈ state.record.created, id ∈ state.record.finalized
  handed : state.record.handed = state.record.accepted
  forgotten : ∀ entry ∈ state.record.opened,
    state.backend.hub.channels entry.1 ≠ some entry.2

/-- What takes a call off its way once a session is open: another start, a
transport error, a flush that fails. -/
def Mishap (phase : Phase) : Event → Prop
  | .start _ _ | .broken _ => True
  | .refused _ =>
      match phase with
      | .flushing _ _ => True
      | _ => False
  | _ => False

def Undisturbed (state : State) (event : Event) : Prop :=
  state.call.sessionId.isSome → ¬ Mishap state.call.phase event

/-- No session was started yet. -/
structure Fresh (state : State) : Prop where
  sessionId : state.call.sessionId = none
  bcast : state.call.bcast = none
  created : state.record.created = []
  opened : state.record.opened = []
  accepted : state.record.accepted = []
  handed : state.record.handed = []
  buffer : state.call.buffer = []
  ended : state.call.ended = false

def Fresh.Waits : Phase → Prop
  | .selecting | .inserting _ | .returned _ => True
  | _ => False

/-- One session was started, and the hub bound it to the call's sender. -/
structure Held (id : Uuid) (sender : Nat) (state : State) : Prop where
  sessionId : state.call.sessionId = some id
  created : state.record.created = [id]
  opened : state.record.opened = [(id, sender)]
  accounted : state.record.handed ++ state.call.buffer = state.record.accepted
  ended : state.call.ended = true → id ∈ state.record.finalized
  registered : (state.backend.sessions id).isSome
  numbered : sender < state.backend.hub.opened

/-- What holds besides, by how far the call is: whether the hub still binds the
session to the sender, and what is left to do. -/
def Held.Phased (bound : Prop) (id : Uuid) (state : State) : Prop :=
  match state.call.phase with
  | .selecting | .resizing _ => bound
  | .flushing _ resume | .counting resume | .finalizing resume =>
      bound ∧ (resume = .drain → state.call.buffer = [])
  | .removing => bound ∧ state.call.buffer = [] ∧ id ∈ state.record.finalized
  | .returned (.ok _) => ¬ bound ∧ state.call.buffer = [] ∧ id ∈ state.record.finalized
  | _ => False

/-- Nothing has gone wrong for the call. -/
inductive Calm (state : State) : Prop where
  | fresh (fresh : Fresh state) (waits : Fresh.Waits state.call.phase)
  | opening (fresh : Fresh { state with record := { state.record with created := [] } })
      (id : Uuid) (phase : state.call.phase = .opening id)
      (created : state.record.created = [id])
      (registered : (state.backend.sessions id).isSome)
  | held (id : Uuid) (sender : Nat) (held : Held id sender state)
      (phased : Held.Phased (state.backend.hub.channels id = some sender) id state)

/-- A phase in which the call may still turn to another session, or is done. -/
def Phase.Away : Phase → Prop
  | .inserting _ | .opening _ | .returned _ => True
  | _ => False

/-- The call will not come back to a session. -/
structure Abandoned (id : Uuid) (call : Call) : Prop where
  away : call.sessionId ≠ some id ∨ call.phase.Away
  next : ∀ other, call.phase = .opening other → other ≠ id

/-- A session of the call's is in the hub and will stay there. -/
inductive Stuck (state : State) : Prop where
  | left (id : Uuid) (sender : Nat) (opened : (id, sender) ∈ state.record.opened)
      (bound : state.backend.hub.channels id = some sender)
      (registered : (state.backend.sessions id).isSome)
      (abandoned : Abandoned id state.call)

/-- A call is calm while no mishap has happened to it, and stuck from the first
one on. -/
def Tracked (state : State) (held : Prop) : Prop :=
  (held → Calm state) ∧ (¬ held → Stuck state)

/-! ## At the return -/

theorem Calm.leavesNothingOpen {state : State} {result : Except Status IngestSummary}
    (calm : Calm state) (returned : state.call.phase = .returned result) :
    LeavesNothingOpen state := by
  cases calm with
  | fresh fresh waits =>
      exact
        { ended := by simp [fresh.created]
          handed := by rw [fresh.handed, fresh.accepted]
          forgotten := by simp [fresh.opened] }
  | opening fresh id phase created registered =>
      rw [phase] at returned
      simp at returned
  | held id sender held phased =>
      unfold Held.Phased at phased
      rw [returned] at phased
      cases result with
      | error status => exact phased.elim
      | ok summary =>
          obtain ⟨removed, drained, finalized⟩ := phased
          exact
            { ended := by simpa [held.created] using finalized
              handed := by rw [← held.accounted, drained, List.append_nil]
              forgotten := by simpa [held.opened] using removed }

theorem Stuck.not_leavesNothingOpen {state : State} (stuck : Stuck state) :
    ¬ LeavesNothingOpen state := by
  intro clean
  obtain ⟨id, sender, opened, bound, -⟩ := stuck
  exact clean.forgotten (id, sender) opened bound

/-! ## A calm call stays calm -/

section Held

variable {id : Uuid} {sender : Nat} {state : State}

/-- Where the call is does not matter to what it holds. -/
theorem Held.moved (held : Held id sender state) (phase : Phase) :
    Held id sender { state with call := { state.call with phase } } :=
  ⟨held.sessionId, held.created, held.opened, held.accounted, held.ended,
    held.registered, held.numbered⟩

theorem calm_afterCount (held : Held id sender state)
    (bound : state.backend.hub.channels id = some sender) {resume : Resume}
    (drained : resume = .drain → state.call.buffer = []) :
    Calm { state with call := afterCount state.call resume } := by
  cases resume with
  | chunk => exact .held id sender (held.moved _) bound
  | tick => exact .held id sender (held.moved _) bound
  | finish exitCode => exact .held id sender (held.moved _) ⟨bound, by simp⟩
  | drain =>
      cases ended : state.call.ended with
      | true =>
          refine .held id sender (held.moved _) ?_
          simp only [Held.Phased, afterCount, ended, if_true]
          exact ⟨bound, drained rfl, held.ended ended⟩
      | false =>
          refine .held id sender (held.moved _) ?_
          simp only [Held.Phased, afterCount, ended, Bool.false_eq_true, if_false]
          exact ⟨bound, fun _ => drained rfl⟩

theorem calm_persistErrorCount (held : Held id sender state)
    (bound : state.backend.hub.channels id = some sender) {resume : Resume}
    (drained : resume = .drain → state.call.buffer = []) :
    Calm { state with call := persistErrorCount state.call resume } := by
  unfold persistErrorCount
  split
  · exact calm_afterCount held bound drained
  · exact .held id sender (held.moved _) ⟨bound, drained⟩

theorem calm_afterFlush (held : Held id sender state)
    (bound : state.backend.hub.channels id = some sender) {resume : Resume}
    (drained : resume = .drain → state.call.buffer = []) :
    Calm { state with call := afterFlush state.call resume } := by
  by_cases chunk : resume = .chunk
  · rw [chunk, afterFlush_chunk]
    exact .held id sender (held.moved _) bound
  · rw [afterFlush_of_some held.sessionId chunk]
    exact calm_persistErrorCount held bound drained

theorem calm_flush (held : Held id sender state)
    (bound : state.backend.hub.channels id = some sender) (resume : Resume) :
    Calm (flush state resume) := by
  unfold flush
  split
  · rename_i empty
    exact calm_afterFlush held bound fun _ => List.isEmpty_iff.mp empty
  · refine .held id sender ?_ ⟨bound, fun _ => rfl⟩
    exact ⟨held.sessionId, held.created, held.opened, by simp [held.accounted],
      held.ended, held.registered, held.numbered⟩

theorem calm_afterFinalize (held : Held id sender state)
    (bound : state.backend.hub.channels id = some sender) {resume : Resume}
    (drained : resume = .drain → state.call.buffer = []) :
    Calm (afterFinalize state id resume) := by
  have finalized : id ∈ state.record.finalized ++ [id] := by simp
  cases resume with
  | drain =>
      refine .held id sender ?_ ⟨bound, drained rfl, finalized⟩
      exact ⟨held.sessionId, held.created, held.opened, held.accounted,
        fun _ => finalized, held.registered, held.numbered⟩
  | chunk | tick | finish =>
      refine .held id sender ?_ bound
      exact ⟨held.sessionId, held.created, held.opened, held.accounted,
        fun _ => finalized, held.registered, held.numbered⟩

theorem Held.accept (codecs : Codecs) (held : Held id sender state) (chunk : TerminalChunk) :
    Held id sender (accept codecs state id chunk) := by
  refine ⟨held.sessionId, held.created, held.opened, ?_, held.ended, ?_, ?_⟩
  · simp [SessionIngest.accept, ← held.accounted]
  · unfold SessionIngest.accept
    split <;> exact held.registered
  · unfold SessionIngest.accept
    split <;> exact held.numbered

/-- Another backend with the same bindings in its hub and the same session. -/
theorem Held.served (held : Held id sender state) (backend : Backend)
    (registered : (backend.sessions id).isSome) (numbered : sender < backend.hub.opened) :
    Held id sender { state with backend } :=
  ⟨held.sessionId, held.created, held.opened, held.accounted, held.ended, registered,
    numbered⟩

end Held

section Fresh

variable {state : State}

theorem Fresh.moved (fresh : Fresh state) (phase : Phase) :
    Fresh { state with call := { state.call with phase } } :=
  ⟨fresh.sessionId, fresh.bcast, fresh.created, fresh.opened, fresh.accepted,
    fresh.handed, fresh.buffer, fresh.ended⟩

theorem Fresh.flush (fresh : Fresh state) (resume : Resume) :
    Calm (flush state resume) := by
  unfold SessionIngest.flush
  rw [if_pos (by simp [fresh.buffer]), afterFlush_of_none fresh.sessionId]
  refine .fresh (fresh.moved _) ?_
  by_cases drain : resume = .drain
  · simp [drain, Fresh.Waits]
  · simp [drain, Fresh.Waits]

/-- The row of a first session was written. -/
theorem Fresh.inserted (fresh : Fresh state) (row : SessionRow) :
    Calm
      { backend :=
          { state.backend with
            sessions := Function.update state.backend.sessions row.id (some row) }
        call := { state.call with phase := .opening row.id }
        record := { state.record with created := state.record.created ++ [row.id] } } := by
  refine .opening ?_ row.id rfl ?_ ?_
  · exact ⟨fresh.sessionId, fresh.bcast, rfl, fresh.opened, fresh.accepted,
      fresh.handed, fresh.buffer, fresh.ended⟩
  · simp [fresh.created]
  · simp

end Fresh

section Steps

variable {codecs : Codecs} {state next : State} {event : Event}

theorem Fresh.step (fresh : Fresh state) (waits : Fresh.Waits state.call.phase)
    (moves : Moves codecs state event next) :
    Calm next := by
  cases moves with
  | begin => exact .fresh (fresh.moved _) trivial
  | early | blank => exact .fresh fresh waits
  | broken => exact .fresh (fresh.moved _) trivial
  | closed | tick => exact fresh.flush _
  | inserted row => exact fresh.inserted row
  | insertFailed => exact .fresh (fresh.moved _) trivial
  | watch key | unwatch receiver =>
      exact .fresh
        ⟨fresh.sessionId, fresh.bcast, fresh.created, fresh.opened, fresh.accepted,
          fresh.handed, fresh.buffer, fresh.ended⟩ waits
  | chunk id chunk selecting opened | full id chunk selecting opened
  | resize id resize selecting opened | finish id finish selecting opened
  | counted id resume counting opened | resized id resize resizing opened
  | finalized id resume finalizing opened | countFailed id resume error counting opened
  | resizeFailed id resize error resizing opened
  | finalizeFailed id resume error finalizing opened | removed id removing opened =>
      rw [fresh.sessionId] at opened
      simp at opened
  | flushed batch resume phase | flushFailed batch resume error phase | opened id phase =>
      rw [phase] at waits
      exact waits.elim

/-- The hub's lock is all a call that is opening its channel waits for. -/
theorem calm_opening_step {id : Uuid}
    (fresh : Fresh { state with record := { state.record with created := [] } })
    (phase : state.call.phase = .opening id) (created : state.record.created = [id])
    (registered : (state.backend.sessions id).isSome)
    (moves : Moves codecs state event next) :
    Calm next := by
  have none : state.call.sessionId = none := fresh.sessionId
  cases moves with
  | opened other opening =>
      obtain rfl : other = id := by
        rw [phase] at opening
        exact (Phase.opening.inj opening).symm
      refine .held other (state.backend.hub.channel other).2 ?_ Hub.channel_channels_self
      exact
        { sessionId := rfl
          created := created
          opened := by simpa using fresh.opened
          accounted := by
            simp only [show state.record.handed = [] from fresh.handed,
              show state.call.buffer = [] from fresh.buffer,
              show state.record.accepted = [] from fresh.accepted, List.append_nil]
          ended := by simp [show state.call.ended = false from fresh.ended]
          registered := registered
          numbered := Hub.channel_lt_opened }
  | watch | unwatch =>
      refine .opening ?_ id phase created registered
      exact ⟨fresh.sessionId, fresh.bcast, rfl, fresh.opened, fresh.accepted, fresh.handed,
        fresh.buffer, fresh.ended⟩
  | _ => simp_all

/-- Another task on the hub neither takes a binding away nor brings back one that
was. -/
theorem Held.watch {id : Uuid} {sender : Nat} (held : Held id sender state)
    (phased : Held.Phased (state.backend.hub.channels id = some sender) id state)
    (key : Uuid) :
    Calm (SessionIngest.watch state key) := by
  have unchanged :
      ((state.backend.hub.channel key).1.channels id = some sender) =
        (state.backend.hub.channels id = some sender) := by
    apply propext
    constructor
    · intro bound
      rcases Hub.channel_channels_cases bound with before | new
      · exact before
      · have := held.numbered
        omega
    · exact Hub.channel_channels_of_eq_some
  refine .held id sender (held.served _ held.registered ?_) ?_
  · exact held.numbered.trans_le Hub.opened_le_channel
  · rw [← unchanged] at phased
    exact phased

theorem Held.step {id : Uuid} {sender : Nat} (held : Held id sender state)
    (phased : Held.Phased (state.backend.hub.channels id = some sender) id state)
    (quiet : ¬ Mishap state.call.phase event)
    (moves : Moves codecs state event next) :
    Calm next := by
  have same {other : Uuid} (opened : state.call.sessionId = some other) : other = id := by
    rw [held.sessionId] at opened
    exact (Option.some.inj opened).symm
  have whole := phased
  unfold Held.Phased at phased
  cases moves with
  | begin | broken => exact (quiet trivial).elim
  | early event selecting none =>
      rw [held.sessionId] at none
      simp at none
  | blank => exact .held id sender held whole
  | chunk other chunk selecting opened =>
      obtain rfl := same opened
      rw [selecting] at phased
      refine .held other sender (held.accept codecs chunk) ?_
      unfold Held.Phased
      rw [show (SessionIngest.accept codecs state other chunk).call.phase = .selecting
        from selecting, accept_channels]
      exact phased
  | full other chunk selecting opened full =>
      obtain rfl := same opened
      rw [selecting] at phased
      exact calm_flush (held.accept codecs chunk)
        (by rw [accept_channels]; exact phased) .chunk
  | resize other resize selecting opened =>
      rw [selecting] at phased
      exact .held id sender (held.moved _) phased
  | finish other finish selecting opened =>
      rw [selecting] at phased
      exact calm_flush held phased _
  | closed selecting | tick selecting =>
      rw [selecting] at phased
      exact calm_flush held phased _
  | inserted row phase | insertFailed row error phase | opened other phase =>
      rw [phase] at phased
      exact phased.elim
  | flushed batch resume flushing =>
      rw [flushing] at phased
      have written := held.served
        { state.backend with events := state.backend.events ++ batch }
        held.registered held.numbered
      exact calm_afterFlush written phased.1 phased.2
  | counted other resume counting opened =>
      rw [counting] at phased
      have recounted : Held id sender
          { backend := updateSession state.backend other fun row =>
              { row with errorCount := state.call.errorCount }
            call := { state.call with persistedErrorCount := state.call.errorCount }
            record := state.record } :=
        ⟨held.sessionId, held.created, held.opened, held.accounted, held.ended,
          by rw [updateSession_isSome]; exact held.registered, held.numbered⟩
      exact calm_afterCount recounted phased.1 phased.2
  | resized other resize resizing opened =>
      rw [resizing] at phased
      refine .held id sender ?_ phased
      exact ⟨held.sessionId, held.created, held.opened, held.accounted, held.ended,
        by rw [updateSession_isSome]; exact held.registered, held.numbered⟩
  | finalized other resume finalizing opened =>
      obtain rfl := same opened
      rw [finalizing] at phased
      have marked := held.served
        (updateSession state.backend other fun row =>
          { row with status := .ended, exitCode := resume.exitCode })
        (by rw [updateSession_isSome]; exact held.registered) held.numbered
      exact calm_afterFinalize marked phased.1 phased.2
  | flushFailed batch resume error flushing =>
      rw [flushing] at quiet
      exact (quiet trivial).elim
  | countFailed other resume error counting opened =>
      rw [counting] at phased
      exact calm_afterCount held phased.1 phased.2
  | resizeFailed other resize error resizing opened =>
      rw [resizing] at phased
      exact .held id sender (held.moved _) phased
  | finalizeFailed other resume error finalizing opened =>
      obtain rfl := same opened
      rw [finalizing] at phased
      exact calm_afterFinalize held phased.1 phased.2
  | removed other removing opened =>
      obtain rfl := same opened
      rw [removing] at phased
      refine .held other sender ?_ ?_
      · exact ⟨held.sessionId, held.created, held.opened, held.accounted, held.ended,
          held.registered, held.numbered⟩
      · exact ⟨by simp, phased.2⟩
  | watch key => exact held.watch whole key
  | unwatch receiver =>
      exact .held id sender (held.served _ held.registered held.numbered) whole

/-! ## A mishap cannot be made good -/

/-- What a session in the hub looks like after a mishap. -/
theorem Held.stuck {id : Uuid} {sender : Nat} (held : Held id sender state)
    (phased : Held.Phased (state.backend.hub.channels id = some sender) id state)
    (mishap : Mishap state.call.phase event)
    (moves : Moves codecs state event next) :
    Stuck next := by
  unfold Held.Phased at phased
  cases moves with
  | begin other start selecting =>
      rw [selecting] at phased
      refine ⟨id, sender, by simp [held.opened], phased, held.registered, ?_⟩
      exact ⟨.inr trivial, by simp⟩
  | broken status selecting =>
      rw [selecting] at phased
      refine ⟨id, sender, by simp [held.opened], phased, held.registered, ?_⟩
      exact ⟨.inr trivial, by simp [Call.returning]⟩
  | flushFailed batch resume error flushing =>
      rw [flushing] at phased
      refine ⟨id, sender, by simp [held.opened], phased.1, held.registered, ?_⟩
      exact ⟨.inr trivial, by simp [Call.returning]⟩
  | insertFailed row error phase =>
      rw [phase] at phased
      exact phased.elim
  | countFailed other resume error phase | resizeFailed other resize error phase
  | finalizeFailed other resume error phase =>
      rw [phase] at mishap
      exact mishap.elim
  | early event selecting none =>
      rw [held.sessionId] at none
      simp at none
  | _ => exact mishap.elim

theorem Abandoned.of_away {id : Uuid} {call : Call} (away : call.sessionId ≠ some id)
    (shut : ∀ other, call.phase ≠ .opening other) : Abandoned id call :=
  ⟨.inl away, fun other opening => (shut other opening).elim⟩

/-- Where a flush leaves the call, and with which session. -/
theorem afterCount_abandoned {id : Uuid} {call : Call} (away : call.sessionId ≠ some id)
    (resume : Resume) : Abandoned id (afterCount call resume) := by
  cases resume with
  | chunk | tick | finish => exact .of_away away (by simp [afterCount])
  | drain =>
      refine .of_away away ?_
      intro other
      simp only [afterCount]
      split <;> simp

theorem afterFlush_abandoned {id : Uuid} {call : Call} (away : call.sessionId ≠ some id)
    (resume : Resume) : Abandoned id (afterFlush call resume) := by
  by_cases chunk : resume = .chunk
  · subst chunk
    exact .of_away away (by simp [afterFlush_chunk])
  · cases opened : call.sessionId with
    | none =>
        rw [afterFlush_of_none opened]
        refine .of_away away ?_
        intro other
        simp only
        split <;> simp
    | some other =>
        rw [afterFlush_of_some opened chunk]
        unfold persistErrorCount
        split
        · exact afterCount_abandoned away resume
        · exact .of_away away (by simp)

theorem flush_abandoned {id : Uuid} (away : state.call.sessionId ≠ some id)
    (resume : Resume) : Abandoned id (flush state resume).call := by
  unfold flush
  split
  · exact afterFlush_abandoned away resume
  · exact .of_away away (by simp)

theorem Stuck.flush {id : Uuid} {sender : Nat} (opened : (id, sender) ∈ state.record.opened)
    (bound : state.backend.hub.channels id = some sender)
    (registered : (state.backend.sessions id).isSome)
    (away : state.call.sessionId ≠ some id) (resume : Resume) :
    Stuck (flush state resume) := by
  refine ⟨id, sender, ?_, ?_, ?_, flush_abandoned away resume⟩
  · rw [flush_opened]
    exact opened
  · rw [flush_backend]
    exact bound
  · rw [flush_backend]
    exact registered

theorem Stuck.step (stuck : Stuck state) (moves : Moves codecs state event next) :
    Stuck next := by
  have whole := stuck
  obtain ⟨id, sender, opened, bound, registered, abandoned⟩ := stuck
  have away (here : ¬ state.call.phase.Away) : state.call.sessionId ≠ some id :=
    abandoned.away.resolve_right here
  cases moves with
  | begin other start selecting =>
      exact ⟨id, sender, opened, bound, registered, .inr trivial, by simp⟩
  | early | blank => exact whole
  | chunk other chunk selecting current =>
      have elsewhere := away (by simp [selecting, Phase.Away])
      refine ⟨id, sender, opened, ?_, ?_, .of_away elsewhere ?_⟩
      · rw [accept_channels]
        exact bound
      · unfold accept
        split <;> exact registered
      · simp [accept, selecting]
  | full other chunk selecting current full =>
      have elsewhere := away (by simp [selecting, Phase.Away])
      have listed : (id, sender) ∈ (accept codecs state other chunk).record.opened := opened
      apply Stuck.flush listed ?_ ?_ elsewhere
      · rw [accept_channels]
        exact bound
      · unfold accept
        split <;> exact registered
  | resize other resize selecting current =>
      have elsewhere := away (by simp [selecting, Phase.Away])
      exact ⟨id, sender, opened, bound, registered, .of_away elsewhere (by simp)⟩
  | finish other finish selecting current | closed selecting | tick selecting =>
      exact .flush opened bound registered (away (by simp [selecting, Phase.Away])) _
  | broken | insertFailed | flushFailed =>
      exact ⟨id, sender, opened, bound, registered, .inr trivial, by simp [Call.returning]⟩
  | inserted row inserting absent =>
      have different : row.id ≠ id := by
        rintro rfl
        simp [absent] at registered
      refine ⟨id, sender, opened, bound, ?_, .inr trivial, ?_⟩
      · simpa [Function.update_of_ne different.symm] using registered
      · simpa using different
  | flushed batch resume flushing =>
      have elsewhere := away (by simp [flushing, Phase.Away])
      exact ⟨id, sender, opened, bound, registered, afterFlush_abandoned elsewhere resume⟩
  | counted other resume counting current =>
      have elsewhere := away (by simp [counting, Phase.Away])
      refine ⟨id, sender, opened, bound, ?_, ?_⟩
      · rw [updateSession_isSome]
        exact registered
      · apply afterCount_abandoned
        exact elsewhere
  | resized other resize resizing current =>
      have elsewhere := away (by simp [resizing, Phase.Away])
      refine ⟨id, sender, opened, bound, ?_, .of_away elsewhere (by simp)⟩
      rw [updateSession_isSome]
      exact registered
  | finalized other resume finalizing current =>
      have elsewhere := away (by simp [finalizing, Phase.Away])
      refine ⟨id, sender, opened, bound, ?_, .of_away ?_ ?_⟩
      · unfold afterFinalize
        rw [updateSession_isSome]
        exact registered
      · cases resume <;> exact elsewhere
      · cases resume <;> simp [afterFinalize]
  | countFailed other resume error counting current =>
      have elsewhere := away (by simp [counting, Phase.Away])
      exact ⟨id, sender, opened, bound, registered, afterCount_abandoned elsewhere resume⟩
  | resizeFailed other resize error resizing current =>
      have elsewhere := away (by simp [resizing, Phase.Away])
      exact ⟨id, sender, opened, bound, registered, .of_away elsewhere (by simp)⟩
  | finalizeFailed other resume error finalizing current =>
      have elsewhere := away (by simp [finalizing, Phase.Away])
      refine ⟨id, sender, opened, bound, registered, .of_away ?_ ?_⟩
      · cases resume <;> exact elsewhere
      · cases resume <;> simp [afterFinalize]
  | opened other opening =>
      have different := abandoned.next other opening
      refine ⟨id, sender, by simp [opened], ?_, registered, .of_away ?_ (by simp)⟩
      · exact Hub.channel_channels_of_eq_some bound
      · simpa using different
  | removed other removing current =>
      have elsewhere := away (by simp [removing, Phase.Away])
      have different : id ≠ other := by
        rintro rfl
        exact elsewhere current
      refine ⟨id, sender, opened, ?_, registered, .inr trivial, by simp [Call.returning]⟩
      simpa [Hub.remove_channels_of_ne different] using bound
  | watch key =>
      exact ⟨id, sender, opened, Hub.channel_channels_of_eq_some bound, registered, abandoned⟩
  | unwatch receiver => exact ⟨id, sender, opened, bound, registered, abandoned⟩

/-- Nothing can go wrong before a session is open. -/
theorem undisturbed_of_none (none : state.call.sessionId = none) :
    Undisturbed state event := by
  simp [Undisturbed, none]

theorem Tracked.step {held : Prop} (before : Tracked state held)
    (stepped : step codecs state event = some next) :
    Tracked next (held ∧ Undisturbed state event) := by
  have moves := moves_of_step stepped
  unfold Tracked
  by_cases holds : held
  · simp only [holds, true_and]
    cases before.1 holds with
    | fresh fresh waits =>
        have quiet : Undisturbed state event := undisturbed_of_none fresh.sessionId
        exact ⟨fun _ => fresh.step waits moves, fun loud => (loud quiet).elim⟩
    | opening fresh id phase created registered =>
        have quiet : Undisturbed state event := undisturbed_of_none fresh.sessionId
        exact ⟨fun _ => calm_opening_step fresh phase created registered moves,
          fun loud => (loud quiet).elim⟩
    | held id sender held phased =>
        have quiet_iff : Undisturbed state event ↔ ¬ Mishap state.call.phase event := by
          simp [Undisturbed, held.sessionId]
        rw [quiet_iff, not_not]
        exact ⟨fun quiet => held.step phased quiet moves,
          fun mishap => held.stuck phased mishap moves⟩
  · simp only [holds, false_and, false_implies, not_false_eq_true, true_implies, true_and]
    exact (before.2 holds).step moves

theorem calm_start (backend : Backend) (admitted : Except Status (Uuid × Option Str)) :
    Calm (start backend admitted) := by
  refine .fresh ⟨rfl, rfl, rfl, rfl, rfl, rfl, rfl, rfl⟩ ?_
  cases admitted <;> trivial

end Steps

open EventRuns

/-- A call that has returned left nothing open exactly when, once a session was
open, the client started no other, the transport held and no flush failed. -/
theorem leavesNothingOpen_iff (codecs : Codecs) (backend : Backend)
    (admitted : Except Status (Uuid × Option Str)) (events : List Event) (state : State)
    (result : Except Status IngestSummary)
    (ran : run (step codecs) (start backend admitted) events = some state)
    (returned : state.call.phase = .returned result) :
    LeavesNothingOpen state ↔
      Guarded (step codecs) Undisturbed (start backend admitted) events := by
  have started : Tracked (start backend admitted) True :=
    ⟨fun _ => calm_start backend admitted, fun never => (never trivial).elim⟩
  have tracked := tracked_of_run (fun _ _ _ _ before stepped => before.step stepped)
    started ran
  rw [true_and] at tracked
  constructor
  · intro clean
    by_contra disturbed
    exact (tracked.2 disturbed).not_leavesNothingOpen clean
  · intro undisturbed
    exact (tracked.1 undisturbed).leavesNothingOpen returned

/-- A recorder that says hello and leaves: the session's row and channel, the chunk,
then the last flush, the finalizer and the hub. -/
def farewell : List Event :=
  [.start 7 ⟨"alice".toList, "bash".toList, 80, 24, []⟩, .stored, .locked,
    .chunk ⟨1, [104, 105], 5⟩, .closed, .stored, .stored, .locked]

theorem leavesNothingOpen_farewell :
    ∃ state, run (step Codecs.hello) (start Backend.empty (.ok (1, none))) farewell =
        some state ∧
      LeavesNothingOpen state := by
  refine ⟨_, rfl, (leavesNothingOpen_iff Codecs.hello Backend.empty (.ok (1, none)) farewell
    _ (.ok ⟨some 7, 1⟩) rfl rfl).mpr ?_⟩
  have early (call : Call) (none : call.sessionId = none) (loud : call.sessionId.isSome) :
      False := by
    simp [none] at loud
  exact .cons (fun loud => (early _ rfl loud).elim) rfl <|
    .cons (fun loud => (early _ rfl loud).elim) rfl <|
    .cons (fun loud => (early _ rfl loud).elim) rfl <|
    .cons (fun _ => id) rfl <| .cons (fun _ => id) rfl <| .cons (fun _ => id) rfl <|
    .cons (fun _ => id) rfl <| .cons (fun _ => id) rfl trivial

/-- The recorder's connection breaks after its session was started. -/
theorem not_leavesNothingOpen_broken :
    ∃ state status,
      run (step Codecs.hello) (start Backend.empty (.ok (1, none)))
          [.start 7 ⟨"alice".toList, "bash".toList, 80, 24, []⟩, .stored, .locked,
            .broken ⟨.other 14, []⟩] = some state ∧
        state.call.phase = .returned (.error status) ∧ ¬ LeavesNothingOpen state := by
  refine ⟨_, ⟨.other 14, []⟩, rfl, rfl, ?_⟩
  intro clean
  have ended : (7 : Uuid) ∈ ([] : List Uuid) := clean.ended 7 (by decide)
  simp at ended

end SessionIngest

end Hermione
