import Hermione.Reporter

/-!
# What `stop` stops

`stop` cancels every timer and empties the queue, and nothing the editor or the
backend does after it starts anything.  What was under way goes on: a call of
`start`, a flush or a snapshot that is about to make its request, and a request
whose failure puts its batch back and sets the timer again.
-/

namespace Hermione

open EventRuns

namespace Reporter

/-- At `stop` no call is about to make a request, and until the next call of
`start` none that was under way begins, is put back or goes on to another
request. -/
def StopsClean (state : Reporter) : Event → Prop
  | .stop =>
      (∀ flight ∈ state.events.flights, flight.sent = true) ∧
        ∀ sending, state.sending = some sending → sending.unsent = false
  | .started _ _ | .cursorFailed => state.off = false
  | .queue (.answered _ status) =>
      state.off = true → EventQueue.isOk status = true ∨ status ∈ permanentRefusals
  | .queue (.lost _) => state.off = false
  | _ => True

/-! ### Whether reporting is off -/

@[simp]
theorem off_enqueue (state : Reporter) : state.enqueue.off = state.off :=
  rfl

@[simp]
theorem off_reportFocus (state : Reporter) (target : Option Str) :
    (state.reportFocus target).off = state.off := by
  unfold reportFocus
  split
  · rfl
  · split <;> rfl

@[simp]
theorem off_reportHeartbeat (state : Reporter) (target : Option Str) :
    (state.reportHeartbeat target).off = state.off := by
  unfold reportHeartbeat
  split <;> rfl

@[simp]
theorem off_pushSnapshot (state : Reporter) : state.pushSnapshot.off = state.off := by
  unfold pushSnapshot
  split <;> rfl

@[simp]
theorem off_onFocus (state : Reporter) (target : Option Str) :
    (state.onFocus target).off = state.off := by
  unfold onFocus
  split
  · rw [off_pushSnapshot, off_reportFocus]
  · rfl

@[simp]
theorem off_onEdit (state : Reporter) (path : Str) (changes : Nat) :
    (state.onEdit path changes).off = state.off := by
  unfold onEdit
  split
  · rw [off_pushSnapshot]
    split <;> split <;> rfl
  · rfl

@[simp]
theorem off_flushEdits (state : Reporter) : state.flushEdits.off = state.off := by
  have folded : ∀ (paths : List Str) (current : Reporter),
      (paths.foldl (fun current _ => current.enqueue) current).off = current.off := by
    intro paths
    induction paths with
    | nil =>
        intro current
        rfl
    | cons path paths ih =>
        intro current
        rw [List.foldl_cons, ih, off_enqueue]
  exact folded _ _

@[simp]
theorem off_closeFile (state : Reporter) (path : Str) :
    (state.closeFile path).off = state.off := by
  unfold closeFile
  split
  · rw [off_enqueue]
    split <;> exact off_flushEdits state
  · rfl

@[simp]
theorem off_sendSnapshot (state : Reporter) (caret : Bool) :
    (state.sendSnapshot caret).off = state.off := by
  unfold sendSnapshot
  split
  · rfl
  · split <;> rfl

@[simp]
theorem off_onSnapshotRequest (state : Reporter) (caret : Bool) :
    (state.onSnapshotRequest caret).off = state.off := by
  unfold onSnapshotRequest
  split
  · rw [off_sendSnapshot]
  · rfl

@[simp]
theorem off_reloaded (state : Reporter) (shareFileContents : Bool) :
    (state.reloaded shareFileContents).off = state.off := by
  unfold reloaded
  dsimp only
  split <;> rfl

@[simp]
theorem off_begin (state : Reporter) (shareFileContents : Bool) (target : Option Str) :
    (state.begin shareFileContents target).off = state.off := by
  unfold begin
  dsimp only
  rw [off_onFocus]
  rfl

/-- Only `stop` turns reporting off. -/
theorem off_step {state next : Reporter} {event : Event} (other : event ≠ .stop)
    (moved : step state event = some next) (off : next.off = true) :
    state.off = true := by
  cases event with
  | stop => exact absurd rfl other
  | start =>
      rw [← Option.some.inj moved, start] at off
      split at off <;> cases off
  | queue event =>
      simp only [step] at moved
      split at moved
      · cases moved
      · obtain ⟨events, -, rfl⟩ := Option.map_eq_some_iff.mp moved
        exact off
      · obtain ⟨events, -, rfl⟩ := Option.map_eq_some_iff.mp moved
        exact off
  | heartbeat target =>
      simp only [step] at moved
      split at moved
      · split at moved
        · rw [← Option.some.inj moved, off_reportHeartbeat] at off
          exact off
        · rw [Option.some.inj moved]
          exact off
      · cases moved
  | snapshotDue caret =>
      simp only [step] at moved
      split at moved
      · split at moved
        · rw [← Option.some.inj moved, off_sendSnapshot] at off
          exact off
        · rw [← Option.some.inj moved] at off
          exact off
      · cases moved
  | reloaded shareFileContents =>
      rwa [← Option.some.inj moved, off_reloaded] at off
  | asked caret =>
      rwa [← Option.some.inj moved, off_onSnapshotRequest] at off
  | _ =>
      simp only [step] at moved
      split at moved
      all_goals cases moved
      all_goals simpa [request] using off

/-! ### Rest -/

/-- No timer is set, nothing waits in the queue, and no call is about to make a
request. -/
structure Quiet (state : Reporter) : Prop where
  disabled : state.enabled = false
  deaf : state.listening = false
  heartbeatTimer : state.heartbeatTimer = false
  editTimer : state.editTimer = false
  watchTimer : state.watchTimer = false
  snapshotTimer : state.snapshotTimer = false
  flushTimer : state.events.timer = false
  queue : state.events.queue = []
  flights : ∀ flight ∈ state.events.flights, flight.sent = true
  sending : ∀ sending, state.sending = some sending → sending.unsent = false

/-- Where reporting is off the reporter is at rest. -/
def Resting (state : Reporter) : Prop :=
  state.off = true → state.Quiet

theorem quiet_stop {state : Reporter} (clean : state.StopsClean .stop) : state.stop.Quiet :=
  { disabled := rfl
    deaf := rfl
    heartbeatTimer := rfl
    editTimer := rfl
    watchTimer := rfl
    snapshotTimer := rfl
    flushTimer := rfl
    queue := rfl
    flights := clean.1
    sending := clean.2 }

/-- Nothing more is sent once a batch is answered for good and nothing waits. -/
theorem answer_for_good {queue : EventQueue} (batch : List Nat) {status : Nat}
    (empty : queue.queue = [])
    (good : EventQueue.isOk status = true ∨ status ∈ permanentRefusals) :
    (queue.answer batch status).timer = queue.timer ∧
      (queue.answer batch status).queue = [] := by
  unfold EventQueue.answer
  split
  · simp [EventQueue.rearm, empty]
  · next notOk =>
      split
      · simp [EventQueue.rearm, empty]
      · next notRefused =>
          rcases good with ok | refused
          · exact absurd ok notOk
          · exact absurd refused notRefused

theorem quiet_queue {state next : Reporter} {event : EventQueue.Event} (quiet : state.Quiet)
    (off : state.off = true) (clean : state.StopsClean (.queue event))
    (moved : step state (.queue event) = some next) :
    next.Quiet ∧ next.requests = state.requests ∧ next.settings = state.settings := by
  cases event with
  | enqueue => cases moved
  | fire => simp [step, EventQueue.step, quiet.flushTimer] at moved
  | send index =>
      simp only [step, EventQueue.step] at moved
      split at moved
      · next batch found =>
          have sent := quiet.flights _ (List.mem_of_getElem? found)
          cases sent
      · cases moved
  | answered index status =>
      simp only [step, EventQueue.step] at moved
      split at moved
      · next batch found =>
          rw [Option.map_some] at moved
          rw [← Option.some.inj moved]
          have waiting : (state.events.land index).queue = [] := quiet.queue
          obtain ⟨timer, queue⟩ := answer_for_good batch waiting (clean off)
          have unset : ((state.events.land index).answer batch status).timer = false :=
            timer.trans quiet.flushTimer
          refine ⟨{ quiet with flushTimer := unset, queue, flights := ?_ }, rfl, ?_⟩
          · intro flight member
            rw [withEvents, EventQueue.flights_answer] at member
            exact quiet.flights flight (List.mem_of_mem_eraseIdx member)
          · rw [withEvents, unset]
            rfl
      · cases moved
  | lost index =>
      have on : state.off = false := clean
      rw [off] at on
      cases on

/-- While reporting is off, a step makes no request and sets no timer, and the
reporter stays at rest. -/
theorem quiet_step {state next : Reporter} {event : Event} (quiet : state.Quiet)
    (off : state.off = true) (clean : state.StopsClean event)
    (moved : step state event = some next) :
    (next.off = true → next.Quiet) ∧ next.requests = state.requests ∧
      next.settings = state.settings := by
  cases event with
  | stop =>
      rw [← Option.some.inj moved]
      exact ⟨fun _ => quiet_stop clean, rfl, rfl⟩
  | start =>
      rw [← Option.some.inj moved, start]
      split
      all_goals
        refine ⟨?_, rfl, rfl⟩
        intro on
        cases on
  | queue event =>
      obtain ⟨still, counts⟩ := quiet_queue quiet off clean moved
      exact ⟨fun _ => still, counts⟩
  | started shareFileContents target =>
      have on : state.off = false := clean
      rw [off] at on
      cases on
  | cursorFailed =>
      have on : state.off = false := clean
      rw [off] at on
      cases on
  | reloaded shareFileContents =>
      simp only [step, reloaded, quiet.disabled, Bool.false_eq_true, if_false,
        Option.some.injEq] at moved
      rw [← moved]
      exact ⟨fun _ => { quiet with disabled := rfl }, rfl, rfl⟩
  | heartbeat target => simp [step, quiet.heartbeatTimer] at moved
  | focused target => simp [step, quiet.deaf] at moved
  | windowState focused => simp [step, quiet.deaf] at moved
  | edited path changes => simp [step, quiet.deaf] at moved
  | selected => simp [step, quiet.deaf] at moved
  | closed path => simp [step, quiet.deaf] at moved
  | editsDue => simp [step, quiet.editTimer] at moved
  | watchLapsed => simp [step, quiet.watchTimer] at moved
  | snapshotDue caret => simp [step, quiet.snapshotTimer] at moved
  | asked caret =>
      simp only [step, onSnapshotRequest, quiet.disabled, Bool.false_eq_true, if_false,
        Option.some.injEq] at moved
      rw [← moved]
      exact ⟨fun _ => quiet, rfl, rfl⟩
  | startFailed =>
      simp only [step] at moved
      split at moved
      all_goals cases moved
      exact ⟨fun _ => { quiet with }, rfl, rfl⟩
  | compared _ | cursorRequested | built _ | fileRequested =>
      simp only [step] at moved
      split at moved
      · next phase =>
          have unsent := quiet.sending _ phase
          cases unsent
      · cases moved
  | cursorAccepted _ | fileOver _ =>
      simp only [step] at moved
      split at moved
      all_goals cases moved
      refine ⟨fun _ => { quiet with sending := ?_ }, rfl, rfl⟩
      intro sending phase
      cases phase

theorem resting_step {state next : Reporter} {event : Event} (resting : state.Resting)
    (clean : state.StopsClean event) (moved : step state event = some next) :
    next.Resting := by
  intro off
  by_cases stops : event = .stop
  · subst stops
    rw [← Option.some.inj moved]
    exact quiet_stop clean
  · have before := off_step stops moved off
    exact (quiet_step (resting before) before clean moved).1 off

/-- In every run that stops cleanly, from every `stop` to the next call of
`start` no request is made and no timer set that leads to one. -/
theorem silent_of_stopsClean {events : List Event}
    (clean : Guarded step StopsClean fresh events) :
    Guarded step Silent fresh events := by
  apply Guarded.weaken Resting _ _ _ clean
  · intro state event next resting
    exact resting_step resting
  · intro state event resting clean off next moved
    exact (quiet_step (resting off) off clean moved).2
  · intro off
    cases off

/-- A student is reported on a file, and stops while the request is on its way. -/
theorem silent_of_stopsClean_answered :
    Guarded step Silent fresh
      [.start, .started true (some "a".toList), .queue .fire, .queue (.send 0), .stop,
        .queue (.answered 0 204)] := by
  apply silent_of_stopsClean
  refine .cons trivial rfl (.cons rfl rfl (.cons trivial rfl (.cons trivial rfl
    (.cons ⟨?_, ?_⟩ rfl (.cons (fun _ => .inl rfl) rfl trivial)))))
  · simp [begin, onFocus, reportFocus, pushSnapshot, enqueue, withEvents, restartHeartbeat, start,
      fresh, request, EventQueue.enqueue, EventQueue.flush, EventQueue.empty]
  · intro sending phase
    cases phase

/-- The same, and the backend cannot be reached: the batch is put back. -/
theorem not_silent_putBack :
    ¬ Guarded step Silent fresh
      [.start, .started true (some "a".toList), .queue .fire, .queue (.send 0), .stop,
        .queue (.lost 0)] := by
  intro silent
  have last := ((((silent.2 _ rfl).2 _ rfl).2 _ rfl).2 _ rfl).2 _ rfl
  have counts := last.1 rfl _ rfl
  exact absurd counts.2 (by decide)

end Reporter

end Hermione
