import Hermione.SessionTasks

/-!
# What the session hub holds

The hub's entry for a session is made by whoever asks first, the recorder's stream
or a watcher, and is dropped only by the last step of the stream.  So a watcher
that comes when the session is over makes an entry that nobody drops, and waits on
it for ever; and a stream that fails leaves its entry and its watchers behind.
-/

namespace Hermione

open Broadcast EventRuns

namespace SessionIngest

variable {codecs : Codecs} {state next : State} {event : Event}

/-! ### What a stream's step does to its session -/

/-- The call is under way and waits for no channel. -/
def Phase.Plain : Phase → Prop
  | .returned _ | .opening _ => False
  | _ => True

theorem Phase.Plain.not_done {phase : Phase} (plain : phase.Plain) : ¬ phase.Done := by
  cases phase <;> first | exact plain.elim | exact id

theorem Phase.Plain.not_opening {phase : Phase} (plain : phase.Plain) (key : Uuid) :
    phase ≠ .opening key := by
  rintro rfl
  exact plain

/-- What a stream's step does to its session, its sender and the hub. -/
inductive Acts (state next : State) (event : Event) : Prop
  | goes (before : state.call.phase.Plain)
      (sessionId : next.call.sessionId = state.call.sessionId)
      (bcast : next.call.bcast = state.call.bcast)
      (still : ∀ key, next.call.phase ≠ .opening key)
      (finished : next.call.phase.Done → state.call.sessionId = none)
      (channels : next.backend.hub.channels = state.backend.hub.channels)
      (sessions : ∀ key, (next.backend.sessions key).isSome = (state.backend.sessions key).isSome)
      (calm : state.call.GivesUp event → state.call.sessionId = none)
  | failed (before : state.call.phase.Plain)
      (gaveUp : state.call.GivesUp event) (finished : next.call.phase.Done)
      (backend : next.backend = state.backend)
  | created (id : Uuid) (before : state.call.phase.Plain)
      (absent : state.backend.sessions id = none)
      (sessionId : next.call.sessionId = state.call.sessionId)
      (bcast : next.call.bcast = state.call.bcast)
      (opening : next.call.phase = .opening id)
      (channels : next.backend.hub.channels = state.backend.hub.channels)
      (sessions : ∀ key, (next.backend.sessions key).isSome =
        ((state.backend.sessions key).isSome || key == id))
      (calm : ¬ state.call.GivesUp event)
  | opened (id : Uuid) (opening : state.call.phase = .opening id)
      (gives : state.call.GivesUp event)
      (sessionId : next.call.sessionId = some id)
      (bcast : next.call.bcast = some (state.backend.hub.channel id).2)
      (selecting : next.call.phase = .selecting)
      (hub : next.backend.hub = (state.backend.hub.channel id).1)
      (sessions : next.backend.sessions = state.backend.sessions)
  | removed (id : Uuid) (removing : state.call.phase = .removing)
      (sessionId : state.call.sessionId = some id)
      (finished : next.call.phase.Done)
      (hub : next.backend.hub = state.backend.hub.remove id)
      (sessions : next.backend.sessions = state.backend.sessions)
      (calm : ¬ state.call.GivesUp event)

theorem acts_of_flush (taken : State) (resume : Resume)
    (selecting : state.call.phase = .selecting)
    (sessionId : taken.call.sessionId = state.call.sessionId)
    (bcast : taken.call.bcast = state.call.bcast)
    (channels : taken.backend.hub.channels = state.backend.hub.channels)
    (sessions : taken.backend.sessions = state.backend.sessions)
    (calm : ¬ state.call.GivesUp event) : Acts state (flush taken resume) event := by
  apply Acts.goes
  · rw [selecting]
    trivial
  · rw [flush_sessionId, sessionId]
  · rw [flush_bcast, bcast]
  · exact (quiet_flush taken resume).not_opening
  · intro done
    rw [← sessionId]
    exact sessionId_of_done_flush done
  · rw [flush_backend, channels]
  · rw [flush_backend, sessions]
    exact fun _ => rfl
  · exact fun gaveUp => (calm gaveUp).elim

theorem acts_of_afterCount {call : Call} {backend : Backend} {record : Record} {resume : Resume}
    (counting : state.call.phase = .counting resume)
    (sessionId : call.sessionId = state.call.sessionId)
    (bcast : call.bcast = state.call.bcast)
    (channels : backend.hub.channels = state.backend.hub.channels)
    (sessions : ∀ key, (backend.sessions key).isSome = (state.backend.sessions key).isSome)
    (calm : ¬ state.call.GivesUp event) :
    Acts state ⟨backend, afterCount call resume, record⟩ event := by
  apply Acts.goes
  · rw [counting]
    trivial
  · exact (afterCount_sessionId call resume).trans sessionId
  · exact (afterCount_bcast call resume).trans bcast
  · exact (quiet_afterCount call resume).not_opening
  · intro done
    obtain ⟨phase, same, rfl | rfl | ⟨resume, rfl⟩⟩ := afterCount_cases call resume
    all_goals
      simp only [same] at done
      exact done.elim
  · exact channels
  · exact sessions
  · exact fun gaveUp => (calm gaveUp).elim

/-- A wait after which the call goes on. -/
theorem acts_of_onward (before : state.call.phase.Plain) (after : next.call.phase.Plain)
    (sessionId : next.call.sessionId = state.call.sessionId)
    (bcast : next.call.bcast = state.call.bcast)
    (channels : next.backend.hub.channels = state.backend.hub.channels)
    (sessions : ∀ key, (next.backend.sessions key).isSome = (state.backend.sessions key).isSome)
    (calm : state.call.GivesUp event → state.call.sessionId = none) : Acts state next event :=
  .goes before sessionId bcast after.not_opening (fun finished => (after.not_done finished).elim)
    channels sessions calm

theorem acts_of_moves (own : event.own = true) (moves : Moves codecs state event next) :
    Acts state next event := by
  cases moves with
  | watch | unwatch => cases own
  | begin id start here =>
      exact acts_of_onward (here ▸ trivial) trivial rfl rfl rfl (fun _ => rfl) False.elim
  | early event here none =>
      exact acts_of_onward (here ▸ trivial) (here ▸ trivial) rfl rfl rfl (fun _ => rfl)
        fun _ => none
  | blank here =>
      exact acts_of_onward (here ▸ trivial) (here ▸ trivial) rfl rfl rfl (fun _ => rfl) False.elim
  | chunk current chunk here opened =>
      have still : (accept codecs state current chunk).call.phase = .selecting := here
      exact acts_of_onward (here ▸ trivial) (still ▸ trivial) rfl rfl
        (accept_channels codecs state current chunk)
        (fun key => congrArg (fun sessions => (sessions key).isSome)
          (accept_sessions codecs state current chunk)) False.elim
  | full current chunk here =>
      exact acts_of_flush (accept codecs state current chunk) _ here rfl rfl
        (accept_channels codecs state current chunk) (accept_sessions codecs state current chunk) id
  | finish current finish here | closed here | tick here =>
      exact acts_of_flush state _ here rfl rfl rfl rfl id
  | flushed batch resume here =>
      apply Acts.goes
      · exact here ▸ trivial
      · exact afterFlush_sessionId state.call resume
      · exact afterFlush_bcast state.call resume
      · exact (quiet_afterFlush state.call resume).not_opening
      · exact sessionId_of_done_afterFlush
      · rfl
      · exact fun _ => rfl
      · exact False.elim
  | counted current resume here =>
      exact acts_of_afterCount here rfl rfl rfl (fun _ => updateSession_isSome) id
  | countFailed current resume error here =>
      exact acts_of_afterCount here rfl rfl rfl (fun _ => rfl) (by simp [Call.GivesUp, here])
  | resize current resize here =>
      exact acts_of_onward (here ▸ trivial) trivial rfl rfl rfl (fun _ => rfl) False.elim
  | resized current resize here =>
      exact acts_of_onward (here ▸ trivial) trivial rfl rfl rfl (fun _ => updateSession_isSome)
        False.elim
  | resizeFailed current resize error here =>
      exact acts_of_onward (here ▸ trivial) trivial rfl rfl rfl (fun _ => rfl)
        (by simp [Call.GivesUp, here])
  | finalized current resume here =>
      cases resume <;>
        exact acts_of_onward (here ▸ trivial) trivial rfl rfl rfl (fun _ => updateSession_isSome)
          False.elim
  | finalizeFailed current resume error here =>
      cases resume <;>
        exact acts_of_onward (here ▸ trivial) trivial rfl rfl rfl (fun _ => rfl)
          (by simp [Call.GivesUp, here])
  | inserted row here absent =>
      have recorded : ∀ key, (Function.update state.backend.sessions row.id (some row) key).isSome =
          ((state.backend.sessions key).isSome || key == row.id) := by
        intro key
        by_cases same : key = row.id <;> simp [same]
      exact .created row.id (here ▸ trivial) absent rfl rfl rfl rfl recorded id
  | opened current here =>
      exact .opened current here (by simp [Call.GivesUp, here]) rfl rfl rfl rfl rfl
  | removed current here opened =>
      exact .removed current here opened trivial rfl rfl (by simp [Call.GivesUp, here])
  | broken status here => exact .failed (here ▸ trivial) trivial trivial rfl
  | insertFailed row error here =>
      exact .failed (here ▸ trivial) (by simp [Call.GivesUp, here]) trivial rfl
  | flushFailed batch resume error here =>
      exact .failed (here ▸ trivial) (by simp [Call.GivesUp, here]) trivial rfl

/-! ### What a stream has of the hub -/

/-- A stream with a session has the sender that the map binds it to, and its sessions
are in the table. -/
structure Fits (backend : Backend) (call : Call) : Prop where
  opened : ¬ call.phase.Done → ∀ key, call.sessionId = some key →
    ∃ sender, call.bcast = some sender ∧ backend.hub.channels key = some sender
  named : ¬ call.phase.Done → ∀ sender, call.bcast = some sender →
    ∃ key, call.sessionId = some key
  registered : ∀ key, call.Concerns key → (backend.sessions key).isSome
  apart : ∀ key, call.phase = .opening key → call.sessionId ≠ some key

theorem fits_start (backend : Backend) (admitted : Except Status (Uuid × Option Str)) :
    Fits backend (start backend admitted).call := by
  cases admitted <;> constructor <;> simp [start, Call.Concerns]

theorem Call.Concerns.sessionId {call : Call} {key : Uuid} (concerns : call.Concerns key)
    (still : ∀ key, call.phase ≠ .opening key) : call.sessionId = some key :=
  concerns.2.resolve_right (still key)

theorem fits_of_done {backend : Backend} {call : Call} (done : call.phase.Done) :
    Fits backend call := by
  constructor
  · exact fun going => (going done).elim
  · exact fun going => (going done).elim
  · exact fun key concerns => (concerns.1 done).elim
  · intro key opening
    rw [opening] at done
    exact done.elim

/-- The stream's own step. -/
theorem Fits.step (fits : Fits state.backend state.call) (acts : Acts state next event) :
    Fits next.backend next.call := by
  cases acts with
  | goes before sessionId bcast still finished channels sessions calm =>
      constructor
      · intro going key here
        rw [bcast, channels]
        exact fits.opened before.not_done key (sessionId ▸ here)
      · rw [bcast, sessionId]
        exact fun _ => fits.named before.not_done
      · intro key concerns
        rw [sessions]
        have here := concerns.sessionId still
        exact fits.registered key ⟨before.not_done, .inl (sessionId ▸ here)⟩
      · exact fun key opening => (still key opening).elim
  | failed before gaveUp finished backend => exact fits_of_done finished
  | created id before absent sessionId bcast opening channels sessions calm =>
      constructor
      · intro going key here
        rw [bcast, channels]
        exact fits.opened before.not_done key (sessionId ▸ here)
      · rw [bcast, sessionId]
        exact fun _ => fits.named before.not_done
      · intro key concerns
        rw [sessions, Bool.or_eq_true]
        rcases concerns.2 with here | here
        · left
          exact fits.registered key ⟨before.not_done, .inl (sessionId ▸ here)⟩
        · right
          obtain rfl := Phase.opening.inj (opening.symm.trans here)
          exact beq_self_eq_true id
      · intro key here
        obtain rfl := Phase.opening.inj (opening.symm.trans here)
        intro same
        have there := fits.registered id ⟨before.not_done, .inl (sessionId ▸ same)⟩
        rw [absent] at there
        cases there
  | opened id opening gives sessionId bcast selecting hub sessions =>
      constructor
      · intro going key here
        obtain rfl := Option.some.inj (sessionId.symm.trans here)
        rw [bcast, hub]
        exact ⟨_, rfl, Hub.channel_channels_self⟩
      · exact fun _ _ _ => ⟨id, sessionId⟩
      · intro key concerns
        have here := concerns.sessionId (by simp [selecting])
        obtain rfl := Option.some.inj (sessionId.symm.trans here)
        rw [sessions]
        apply fits.registered
        simp [Call.Concerns, opening, Phase.Done]
      · simp [selecting]
  | removed id removing sessionId finished hub sessions calm => exact fits_of_done finished

/-- Whoever has a sender of a channel has the map bind its session to it. -/
theorem Fits.bound_of_holds {backend : Backend} {call : Call} (fits : Fits backend call)
    {channel : Nat} (holds : call.holds channel = true) :
    ∃ key, call.Concerns key ∧ backend.hub.channels key = some channel := by
  have going : ¬ call.phase.Done := by
    intro done
    unfold Phase.Done at done
    split at done
    · next returned => simp [Call.holds, returned] at holds
    · exact done
  have bcast : call.bcast = some channel := by
    unfold Call.holds at holds
    split at holds
    · cases holds
    · exact of_decide_eq_true holds
  obtain ⟨key, here⟩ := fits.named going channel bcast
  obtain ⟨sender, same, bound⟩ := fits.opened going key here
  obtain rfl := Option.some.inj (same.symm.trans bcast)
  exact ⟨key, ⟨going, .inl here⟩, bound⟩

/-- What others do to the backend: the sessions stay, and the map changes only for
keys that the stream is not concerned with, or that it had not bound. -/
theorem Fits.other {backend later : Backend} {call : Call} (fits : Fits backend call)
    (sessions : ∀ key, (backend.sessions key).isSome → (later.sessions key).isSome)
    (channels : ∀ key sender, call.Concerns key → backend.hub.channels key = some sender →
      later.hub.channels key = some sender) : Fits later call := by
  constructor
  · intro going key here
    obtain ⟨sender, bcast, bound⟩ := fits.opened going key here
    exact ⟨sender, bcast, channels key sender ⟨going, .inl here⟩ bound⟩
  · exact fits.named
  · exact fun key concerns => sessions key (fits.registered key concerns)
  · exact fits.apart

/-- A step loses no session. -/
theorem Acts.sessions_isSome (acts : Acts state next event) {key : Uuid}
    (there : (state.backend.sessions key).isSome) : (next.backend.sessions key).isSome := by
  cases acts with
  | goes before sessionId bcast still finished channels sessions calm => rw [sessions, there]
  | failed before gaveUp finished backend => rw [backend, there]
  | created id before absent sessionId bcast opening channels sessions calm =>
      rw [sessions, there, Bool.true_or]
  | opened id opening gives sessionId bcast selecting hub sessions => rw [sessions, there]
  | removed id removing sessionId finished hub sessions calm => rw [sessions, there]

/-- A step unbinds at most the stream's own session. -/
theorem Acts.channels_eq_some (acts : Acts state next event) {key : Uuid} {sender : Nat}
    (bound : state.backend.hub.channels key = some sender) (other : ¬ state.call.Concerns key) :
    next.backend.hub.channels key = some sender := by
  cases acts with
  | goes before sessionId bcast still finished channels sessions calm => rw [channels, bound]
  | failed before gaveUp finished backend => rw [backend, bound]
  | created id before absent sessionId bcast opening channels sessions calm => rw [channels, bound]
  | opened id opening gives sessionId bcast selecting hub sessions =>
      rw [hub]
      exact Hub.channel_channels_of_eq_some bound
  | removed id removing sessionId finished hub sessions calm =>
      have different : key ≠ id := by
        rintro rfl
        apply other
        simp [Call.Concerns, removing, sessionId, Phase.Done]
      rw [hub, Hub.remove_channels_of_ne different, bound]

/-- What a step makes the stream be concerned with is a new session. -/
theorem Acts.concerns (acts : Acts state next event) {key : Uuid}
    (concerns : next.call.Concerns key) :
    state.call.Concerns key ∨ state.backend.sessions key = none := by
  cases acts with
  | goes before sessionId bcast still finished channels sessions calm =>
      left
      exact ⟨before.not_done, .inl (sessionId ▸ concerns.sessionId still)⟩
  | failed before gaveUp finished backend => exact (concerns.1 finished).elim
  | created id before absent sessionId bcast opening channels sessions calm =>
      rcases concerns.2 with here | here
      · left
        exact ⟨before.not_done, .inl (sessionId ▸ here)⟩
      · right
        obtain rfl := Phase.opening.inj (opening.symm.trans here)
        exact absent
  | opened id opening gives sessionId bcast selecting hub sessions =>
      left
      have here := concerns.sessionId (by simp [selecting])
      obtain rfl := Option.some.inj (sessionId.symm.trans here)
      simp [Call.Concerns, opening, Phase.Done]
  | removed id removing sessionId finished hub sessions calm => exact (concerns.1 finished).elim

/-- Where a step leaves a binding, the stream is concerned with the key, or it was not
before and the binding was there. -/
theorem Acts.bound (acts : Acts state next event)
    (orderly : state.call.GivesUp event → state.call.sessionId = none) {key : Uuid} {sender : Nat}
    (bound : next.backend.hub.channels key = some sender) :
    next.call.Concerns key ∨
      state.backend.hub.channels key = some sender ∧ ¬ state.call.Concerns key := by
  cases acts with
  | goes before sessionId bcast still finished channels sessions calm =>
      by_cases here : state.call.sessionId = some key
      · left
        refine ⟨fun done => ?_, .inl (sessionId.trans here)⟩
        cases here.symm.trans (finished done)
      · right
        exact ⟨channels ▸ bound, fun concerns => here (concerns.sessionId before.not_opening)⟩
  | failed before gaveUp finished backend =>
      right
      refine ⟨backend ▸ bound, fun concerns => ?_⟩
      cases (concerns.sessionId before.not_opening).symm.trans (orderly gaveUp)
  | created id before absent sessionId bcast opening channels sessions calm =>
      by_cases here : state.call.sessionId = some key
      · left
        exact ⟨by simp [opening, Phase.Done], .inl (sessionId.trans here)⟩
      · right
        exact ⟨channels ▸ bound, fun concerns => here (concerns.sessionId before.not_opening)⟩
  | opened id opening gives sessionId bcast selecting hub sessions =>
      by_cases same : key = id
      · left
        exact ⟨by simp [selecting, Phase.Done], .inl (same ▸ sessionId)⟩
      · right
        rw [hub, Hub.channel_channels_of_ne same] at bound
        refine ⟨bound, fun concerns => ?_⟩
        rcases concerns.2 with here | here
        · cases here.symm.trans (orderly gives)
        · exact same (Phase.opening.inj (here.symm.trans opening))
  | removed id removing sessionId finished hub sessions calm =>
      right
      rw [hub] at bound
      have different : key ≠ id := by
        rintro rfl
        rw [Hub.remove_channels_self] at bound
        cases bound
      refine ⟨Hub.remove_channels_of_ne different ▸ bound, fun concerns => ?_⟩
      have here := concerns.sessionId (by simp [removing])
      exact different (Option.some.inj (here.symm.trans sessionId))

/-- A stream that gives a session up leaves its binding. -/
theorem Acts.abandons (acts : Acts state next event) (fits : Fits state.backend state.call)
    (gaveUp : state.call.GivesUp event) {key : Uuid} (here : state.call.sessionId = some key) :
    ¬ state.call.phase.Done ∧
      (∃ sender, next.backend.hub.channels key = some sender) ∧ ¬ next.call.Concerns key := by
  cases acts with
  | goes before sessionId bcast still finished channels sessions calm =>
      cases here.symm.trans (calm gaveUp)
  | failed before _ finished backend =>
      obtain ⟨sender, -, bound⟩ := fits.opened before.not_done key here
      exact ⟨before.not_done, ⟨sender, backend ▸ bound⟩, fun concerns => concerns.1 finished⟩
  | created id before absent sessionId bcast opening channels sessions calm =>
      exact (calm gaveUp).elim
  | opened id opening gives sessionId bcast selecting hub sessions =>
      have going : ¬ state.call.phase.Done := by simp [opening, Phase.Done]
      obtain ⟨sender, -, bound⟩ := fits.opened going key here
      refine ⟨going, ⟨sender, hub ▸ Hub.channel_channels_of_eq_some bound⟩, fun concerns => ?_⟩
      have there := concerns.sessionId (by simp [selecting])
      obtain rfl := Option.some.inj (sessionId.symm.trans there)
      exact fits.apart id opening here
  | removed id removing sessionId finished hub sessions calm => exact (calm gaveUp).elim

theorem extends_accept (id : Uuid) (chunk : TerminalChunk) :
    state.backend.hub.Extends (accept codecs state id chunk).backend.hub := by
  unfold accept
  split
  · exact Hub.extends_send _ _ _
  · exact .refl _

/-- Channels and receivers stay what they are. -/
theorem extends_of_moves (own : event.own = true) (moves : Moves codecs state event next) :
    state.backend.hub.Extends next.backend.hub := by
  cases moves with
  | watch | unwatch => cases own
  | chunk current chunk => exact extends_accept current chunk
  | full current chunk =>
      rw [flush_backend]
      exact extends_accept current chunk
  | finish | closed | tick =>
      rw [flush_backend]
      exact .refl _
  | opened current => exact Hub.extends_channel
  | removed current => exact Hub.extends_remove
  | _ => exact .refl _

end SessionIngest

/-- What a watcher holds was made for its key. -/
def Watcher.Tuned (hub : Hub Uuid Fanned) : Watcher → Prop
  | .handed key sender => hub.keys[sender]? = some key
  | .reading key receiver | .relaying key receiver => hub.Hears receiver key
  | .gone => True

theorem Watcher.Tuned.extend {hub later : Hub Uuid Fanned} {watcher : Watcher}
    (tuned : watcher.Tuned hub) (grown : hub.Extends later) : watcher.Tuned later := by
  cases watcher with
  | handed key sender => exact grown.keys sender key tuned
  | reading key receiver | relaying key receiver => exact Hub.Hears.extend tuned grown
  | gone => trivial

namespace SessionWorld

variable {codecs : Codecs} {world next : SessionWorld} {event : Event}

/-- What an event does. -/
inductive Moved (world : SessionWorld) : Event → SessionWorld → Prop
  | began (admitted : Except Status (Uuid × Option Str)) (ingest : Ingest)
      (call : ingest.call = (SessionIngest.start world.backend admitted).call) :
      Moved world (.stream admitted) { world with calls := world.calls ++ [some ingest] }
  | acted (index : Nat) (event : SessionIngest.Event) (ingest : Ingest)
      (later : SessionIngest.State) (has : world.Has index ingest)
      (acts : SessionIngest.Acts ⟨world.backend, ingest.call, ingest.record⟩ later event)
      (grown : world.backend.hub.Extends later.backend.hub) :
      Moved world (.ingest index event)
        { world with
          backend := later.backend
          calls := world.calls.set index (some ⟨later.call, later.record⟩) }
  | dropped (index : Nat) (ingest : Ingest) (has : world.Has index ingest) :
      Moved world (.drop index) { world with calls := world.calls.set index none }
  | handed (viewer : Viewer) (key : Uuid) :
      Moved world (.watch viewer key)
        { world.withHub (world.backend.hub.channel key).1 with
          watchers := world.watchers ++ [.handed key (world.backend.hub.channel key).2] }
  | watched (event : Event) (hub : Hub Uuid Fanned) (watchers : List Watcher)
      (grown : world.backend.hub.Extends hub)
      (channels : hub.channels = world.backend.hub.channels)
      (tuned : (∀ watcher ∈ world.watchers, watcher.Tuned hub) →
        ∀ watcher ∈ watchers, watcher.Tuned hub)
      (free : world.Orderly event) :
      Moved world event { world.withHub hub with watchers }

theorem moved_put {hub : Hub Uuid Fanned} {index : Nat} {watcher : Watcher}
    (grown : world.backend.hub.Extends hub)
    (channels : hub.channels = world.backend.hub.channels)
    (tuned : (∀ watcher ∈ world.watchers, watcher.Tuned hub) → watcher.Tuned hub)
    (free : world.Orderly event) : Moved world event ((world.withHub hub).put index watcher) := by
  apply Moved.watched event hub (world.watchers.set index watcher) grown channels
  · intro all other member
    rcases List.mem_or_eq_of_mem_set member with before | rfl
    · exact all other before
    · exact tuned all
  · exact free

theorem moved_of_step (stepped : step codecs world event = some next) :
    Moved world event next := by
  cases event with
  | stream admitted =>
      cases stepped
      exact .began admitted _ rfl
  | ingest index event =>
      simp only [step] at stepped
      split at stepped
      · next ingest has own =>
          obtain ⟨later, acted, rfl⟩ := Option.map_eq_some_iff.mp stepped
          have moves := SessionIngest.moves_of_step acted
          exact .acted index event ingest later has (SessionIngest.acts_of_moves own moves)
            (SessionIngest.extends_of_moves own moves)
      · cases stepped
  | drop index =>
      simp only [step] at stepped
      split at stepped
      · next ingest has =>
          cases stepped
          exact .dropped index ingest has
      · cases stepped
  | watch viewer key =>
      simp only [step] at stepped
      split at stepped
      · cases stepped
        exact .handed viewer key
      · cases stepped
  | listen index =>
      simp only [step] at stepped
      split at stepped
      · next key sender found =>
          cases stepped
          apply moved_put (Hub.extends_listen sender) rfl
          · intro tuned
            exact Hub.hears_listen (tuned _ (List.mem_of_getElem? found))
          · trivial
      · cases stepped
  | tail index =>
      simp only [step] at stepped
      split at stepped
      · next key receiver found =>
          cases stepped
          exact moved_put (.refl _) rfl
            (fun tuned => tuned (.reading key receiver) (List.mem_of_getElem? found)) trivial
      · cases stepped
  | relay index =>
      simp only [step] at stepped
      split at stepped
      · next key receiver found =>
          obtain ⟨⟨msg, hub⟩, received, rfl⟩ := Option.map_eq_some_iff.mp stepped
          have grown := Hub.extends_recv received
          obtain ⟨⟨first, rest⟩, read, same⟩ := Option.map_eq_some_iff.mp received
          obtain ⟨rfl, rfl⟩ := Prod.mk.inj same
          exact .watched _ _ world.watchers grown rfl id trivial
      · cases stepped
  | close index =>
      simp only [step] at stepped
      split at stepped
      · next key receiver found =>
          split at stepped
          · split at stepped
            · cases stepped
              exact moved_put (Hub.extends_dropReceiver receiver) rfl (fun _ => trivial) trivial
            · cases stepped
          · cases stepped
      · cases stepped
  | hangUp index =>
      simp only [step] at stepped
      split at stepped
      · cases stepped
        exact moved_put (.refl _) rfl (fun _ => trivial) trivial
      · cases stepped
        exact moved_put (Hub.extends_dropReceiver _) rfl (fun _ => trivial) trivial
      · cases stepped
        exact moved_put (Hub.extends_dropReceiver _) rfl (fun _ => trivial) trivial
      · cases stepped

/-! ### What every server keeps -/

/-- Streams have what they hold from the hub, no two are about one session, and
watchers hold what was made for their keys. -/
structure Sound (world : SessionWorld) : Prop where
  fits : ∀ index ingest, world.Has index ingest →
    SessionIngest.Fits world.backend ingest.call
  unique : ∀ first second (one other : Ingest) (key : Uuid), world.Has first one →
    world.Has second other → one.call.Concerns key → other.call.Concerns key → first = second
  tuned : ∀ watcher ∈ world.watchers, watcher.Tuned world.backend.hub

theorem sound_start (sessions : Uuid → Option SessionRow) (events : List TerminalRow) :
    (start sessions events).Sound := by
  constructor
  · intro index ingest has
    simp [Has, start] at has
  · intro first second one other key has
    simp [Has, start] at has
  · nofun

/-- The streams after one of them has changed. -/
theorem has_set {index place : Nat} {changed : Option Ingest} {ingest : Ingest}
    (has : (world.calls.set index changed)[place]? = some (some ingest)) :
    place = index ∧ changed = some ingest ∨ place ≠ index ∧ world.Has place ingest := by
  rw [List.getElem?_set] at has
  split at has
  · next same =>
      left
      split at has
      · exact ⟨same.symm, Option.some.inj has⟩
      · cases has
  · next different => exact .inr ⟨Ne.symm different, has⟩

/-- The streams after one was begun. -/
theorem has_append {place : Nat} {begun ingest : Ingest}
    (has : (world.calls ++ [some begun])[place]? = some (some ingest)) :
    world.Has place ingest ∨ ingest = begun := by
  by_cases early : place < world.calls.length
  · left
    rw [List.getElem?_append_left early] at has
    exact has
  · right
    have member := List.mem_of_getElem? ((List.getElem?_append_right (by omega)).symm.trans has)
    exact Option.some.inj (List.mem_singleton.mp member)

theorem not_concerns_start {backend : Backend} {admitted : Except Status (Uuid × Option Str)}
    {key : Uuid} : ¬ (SessionIngest.start backend admitted).call.Concerns key := by
  cases admitted <;> simp [SessionIngest.start, SessionIngest.Call.Concerns]

/-- Watchers change the hub only so far. -/
theorem Sound.watch {hub : Hub Uuid Fanned} {watchers : List Watcher} (sound : world.Sound)
    (channels : ∀ key sender, world.backend.hub.channels key = some sender →
      hub.channels key = some sender)
    (tuned : ∀ watcher ∈ watchers, watcher.Tuned hub) :
    { world.withHub hub with watchers }.Sound := by
  constructor
  · intro index ingest has
    exact (sound.fits index ingest has).other (fun _ there => there)
      fun key sender _ => channels key sender
  · exact sound.unique
  · exact tuned

theorem sound_step (sound : world.Sound) (stepped : step codecs world event = some next) :
    next.Sound := by
  cases moved_of_step stepped with
  | began admitted ingest call =>
      constructor
      · intro index other has
        rcases has_append has with before | rfl
        · exact sound.fits index other before
        · rw [call]
          exact SessionIngest.fits_start world.backend admitted
      · intro first second one other key has hasOther concerns concernsOther
        rcases has_append has with before | rfl
        · rcases has_append hasOther with beforeOther | rfl
          · exact sound.unique first second one other key before beforeOther concerns concernsOther
          · rw [call] at concernsOther
            exact (not_concerns_start concernsOther).elim
        · rw [call] at concerns
          exact (not_concerns_start concerns).elim
      · exact sound.tuned
  | acted index event ingest later has acts grown =>
      have fits := sound.fits index ingest has
      -- what another stream is concerned with is none of this one's sessions, old or new
      have apart : ∀ place other key, place ≠ index → world.Has place other →
          other.call.Concerns key → ¬ ingest.call.Concerns key ∧ ¬ later.call.Concerns key := by
        intro place other key different hasOther concerns
        have mine : ¬ ingest.call.Concerns key := fun own =>
          different (sound.unique place index other ingest key hasOther has concerns own)
        refine ⟨mine, fun own => ?_⟩
        rcases acts.concerns own with before | absent
        · exact mine before
        · have there := (sound.fits place other hasOther).registered key concerns
          rw [absent] at there
          cases there
      constructor
      · intro place other hasOther
        rcases has_set hasOther with ⟨rfl, same⟩ | ⟨different, before⟩
        · obtain rfl := Option.some.inj same
          exact SessionIngest.Fits.step fits acts
        · apply (sound.fits place other before).other
          · exact fun key => acts.sessions_isSome
          · intro key sender concerns bound
            exact acts.channels_eq_some bound (apart place other key different before concerns).1
      · intro first second one other key hasOne hasOther concerns concernsOther
        rcases has_set hasOne with ⟨rfl, same⟩ | ⟨different, before⟩
        · rcases has_set hasOther with ⟨rfl, -⟩ | ⟨differentOther, beforeOther⟩
          · rfl
          · obtain rfl := Option.some.inj same
            exact ((apart second other key differentOther beforeOther concernsOther).2
              concerns).elim
        · rcases has_set hasOther with ⟨rfl, sameOther⟩ | ⟨-, beforeOther⟩
          · obtain rfl := Option.some.inj sameOther
            exact ((apart first one key different before concerns).2 concernsOther).elim
          · exact sound.unique first second one other key before beforeOther concerns
              concernsOther
      · exact fun watcher member => (sound.tuned watcher member).extend grown
  | dropped index ingest has =>
      have still : ∀ place other, (world.calls.set index none)[place]? = some (some other) →
          world.Has place other := by
        intro place other hasOther
        rcases has_set hasOther with ⟨-, none⟩ | ⟨-, before⟩
        · cases none
        · exact before
      constructor
      · exact fun place other hasOther => sound.fits place other (still place other hasOther)
      · intro first second one other key hasOne hasOther
        exact sound.unique first second one other key (still first one hasOne)
          (still second other hasOther)
      · exact sound.tuned
  | handed viewer key =>
      apply sound.watch fun _ _ => Hub.channel_channels_of_eq_some
      intro watcher member
      rcases List.mem_append.mp member with before | new
      · exact (sound.tuned watcher before).extend Hub.extends_channel
      · rw [List.mem_singleton.mp new]
        exact Hub.channel_made
  | watched event hub watchers grown channels tuned free =>
      apply sound.watch fun key sender bound => channels ▸ bound
      exact tuned fun watcher member => (sound.tuned watcher member).extend grown

/-! ### The map holds the sessions under way -/

/-- Every key of the map is of a session whose stream is under way. -/
def Tidy (world : SessionWorld) : Prop :=
  ∀ key sender, world.backend.hub.channels key = some sender → world.InProgress key

theorem tidy_start (sessions : Uuid → Option SessionRow) (events : List TerminalRow) :
    (start sessions events).Tidy :=
  nofun

theorem Has.inj {index : Nat} {one other : Ingest} (has : world.Has index one)
    (hasOther : world.Has index other) : one = other :=
  Option.some.inj (Option.some.inj (has.symm.trans hasOther))

/-- Another stream is where it was. -/
theorem Has.set {index place : Nat} {changed : Option Ingest} {ingest : Ingest}
    (has : world.Has place ingest) (different : place ≠ index) :
    (world.calls.set index changed)[place]? = some (some ingest) :=
  (List.getElem?_set_ne different.symm).trans has

theorem tidy_step (tidy : world.Tidy) (orderly : world.Orderly event)
    (stepped : step codecs world event = some next) : next.Tidy := by
  intro key sender bound
  cases moved_of_step stepped with
  | began admitted ingest call =>
      obtain ⟨index, other, has, concerns⟩ := tidy key sender bound
      refine ⟨index, other, ?_, concerns⟩
      exact (List.getElem?_append_left (List.getElem?_eq_some_iff.mp has).1).trans has
  | acted index event ingest later has acts grown =>
      rcases acts.bound (orderly ingest has) bound with concerns | ⟨before, mine⟩
      · have within : index < world.calls.length := (List.getElem?_eq_some_iff.mp has).1
        exact ⟨index, ⟨later.call, later.record⟩, List.getElem?_set_self within, concerns⟩
      · obtain ⟨place, other, hasOther, concerns⟩ := tidy key sender before
        refine ⟨place, other, hasOther.set ?_, concerns⟩
        rintro rfl
        exact mine (has.inj hasOther ▸ concerns)
  | dropped index ingest has =>
      obtain ⟨place, other, hasOther, concerns⟩ := tidy key sender bound
      refine ⟨place, other, hasOther.set ?_, concerns⟩
      rintro rfl
      cases bound.symm.trans (orderly other key hasOther concerns)
  | handed viewer asked =>
      by_cases same : key = asked
      · exact same ▸ orderly
      · exact tidy key sender ((Hub.channel_channels_of_ne same).symm.trans bound)
  | watched event hub watchers grown channels tuned free =>
      exact tidy key sender (channels ▸ bound)

theorem orderly_of_tidy (sound : world.Sound) (tidy : next.Tidy)
    (stepped : step codecs world event = some next) : world.Orderly event := by
  cases moved_of_step stepped with
  | began admitted ingest call => trivial
  | acted index event ingest later has acts grown =>
      intro other hasOther gaveUp
      obtain rfl := has.inj hasOther
      by_contra some_session
      obtain ⟨key, here⟩ := Option.ne_none_iff_exists'.mp some_session
      obtain ⟨going, ⟨sender, bound⟩, left⟩ :=
        acts.abandons (sound.fits index ingest has) gaveUp here
      obtain ⟨place, other, hasOther, concerns⟩ := tidy key sender bound
      rcases has_set hasOther with ⟨-, same⟩ | ⟨different, before⟩
      · obtain rfl := Option.some.inj same
        exact left concerns
      · exact different (sound.unique place index other ingest key before has concerns
          ⟨going, .inl here⟩)
  | dropped index ingest has =>
      intro other key hasOther concerns
      by_contra some_sender
      obtain ⟨sender, bound⟩ := Option.ne_none_iff_exists'.mp some_sender
      obtain ⟨place, third, hasThird, concernsThird⟩ := tidy key sender bound
      rcases has_set hasThird with ⟨-, none⟩ | ⟨different, before⟩
      · cases none
      · exact different (sound.unique place index third other key before hasOther concernsThird
          concerns)
  | handed viewer key => exact tidy key _ Hub.channel_channels_self
  | watched event hub watchers grown channels tuned free => exact free

/-! ### What is claimed, and no more -/

theorem Sound.waits (sound : world.Sound) (tidy : world.Tidy) (channel : Nat) :
    world.Served channel ∨ world.Closing channel := by
  by_cases some_key : ∃ key, world.backend.hub.channels key = some channel
  · left
    obtain ⟨key, bound⟩ := some_key
    obtain ⟨index, ingest, has, concerns⟩ := tidy key channel bound
    refine ⟨index, ingest, key, has, concerns, bound, fun here => ?_⟩
    obtain ⟨sender, bcast, same⟩ := (sound.fits index ingest has).opened concerns.1 key here
    rw [bcast, ← same, bound]
  · right
    refine ⟨fun key bound => some_key ⟨key, bound⟩, fun index ingest has => ?_⟩
    by_contra holds
    rw [Bool.not_eq_false] at holds
    obtain ⟨key, -, bound⟩ := (sound.fits index ingest has).bound_of_holds holds
    exact some_key ⟨key, bound⟩

/-- Nobody has a sender of the channel of a session that is over. -/
theorem Sound.not_isOpen (sound : world.Sound) (tidy : world.Tidy) {key : Uuid} {channel : Nat}
    (made : world.backend.hub.keys[channel]? = some key) (finished : ¬ world.InProgress key)
    (nobody : ∀ watcher ∈ world.watchers, watcher.holds channel = false) :
    world.isOpen channel = false := by
  rw [isOpen, Bool.or_eq_false_iff, Bool.or_eq_false_iff]
  refine ⟨⟨?_, ?_⟩, ?_⟩
  · rw [isBound, made]
    exact decide_eq_false fun bound => finished (tidy key channel bound)
  · rw [List.any_eq_false]
    intro call member holds
    split at holds
    · next ingest =>
        obtain ⟨index, has⟩ := List.getElem?_of_mem member
        obtain ⟨other, concerns, bound⟩ := (sound.fits index ingest has).bound_of_holds holds
        have same := world.backend.hub.made other channel bound
        obtain rfl := Option.some.inj (same.symm.trans made)
        exact finished ⟨index, ingest, has, concerns⟩
    · cases holds
  · rw [List.any_eq_false]
    intro watcher member holds
    cases (nobody watcher member).symm.trans holds

theorem HoldsLive.tidy (live : world.HoldsLive codecs) : world.Tidy := by
  intro key sender bound
  rcases live.bound key sender bound with going | ⟨receiver, member, alive, listens⟩
  · exact going
  · rcases live.waits receiver member alive with
      ⟨index, ingest, other, has, concerns, same, -⟩ | ⟨closing, -⟩
    · rw [listens] at same
      have made := world.backend.hub.made key sender bound
      obtain rfl := Option.some.inj (made.symm.trans (world.backend.hub.made other sender same))
      exact ⟨index, ingest, has, concerns⟩
    · exact (closing key (listens ▸ bound)).elim

theorem holdsLive_iff_tidy (sound : world.Sound) : world.HoldsLive codecs ↔ world.Tidy := by
  constructor
  · exact HoldsLive.tidy
  · intro tidy
    constructor
    · exact fun key sender bound => .inl (tidy key sender bound)
    · exact fun receiver _ _ => sound.waits tidy receiver.channel
    · intro index receiver key listening relaying found finished read nobody
      have hears := sound.tuned _ (List.mem_of_getElem? relaying)
      obtain ⟨heard, there, made⟩ := hears
      obtain rfl := Option.some.inj (there.symm.trans found)
      simp [step, relaying, found, read, sound.not_isOpen tidy made finished nobody]

/-- In every run, at every moment the session hub holds only what is live, exactly
when every step is orderly: watchers ask only for sessions under way, and streams
leave their sessions only by their last steps. -/
theorem holdsLive_iff_orderly (codecs : Codecs) (sessions : Uuid → Option SessionRow)
    (rows : List TerminalRow) (events : List Event) (final : SessionWorld)
    (ran : run (step codecs) (start sessions rows) events = some final) :
    Throughout (step codecs) (fun world => world.HoldsLive codecs) (start sessions rows) events ↔
      Guarded (step codecs) Orderly (start sessions rows) events := by
  symm
  apply guarded_iff_throughout Sound
  · intro world event next
    exact sound_step
  · intro world event next sound live _ orderly stepped
    rw [holdsLive_iff_tidy (sound_step sound stepped)]
    exact tidy_step live.tidy orderly stepped
  · intro world event next sound live stepped
    exact orderly_of_tidy sound live.tidy stepped
  · exact sound_start sessions rows
  · exact (holdsLive_iff_tidy (sound_start sessions rows)).mpr (tidy_start sessions rows)
  · exact fun _ _ => trivial
  · exact ran

/-- A recorder's stream from its start to its return. -/
def recorded : List Event :=
  [.stream (.ok (1, none)),
    .ingest 0 (.start 7 ⟨"alice".toList, "bash".toList, 80, 24, []⟩), .ingest 0 .stored,
    .ingest 0 .locked, .ingest 0 .closed, .ingest 0 .stored, .ingest 0 .locked]

/-- A watcher that comes while a session runs hears what is recorded, and then its end. -/
def attended : List Event :=
  [.stream (.ok (1, none)),
    .ingest 0 (.start 7 ⟨"alice".toList, "bash".toList, 80, 24, []⟩), .ingest 0 .stored,
    .ingest 0 .locked, .watch .web 7, .listen 0, .tail 0,
    .ingest 0 (.chunk ⟨StreamKind.stdout.number, [104], 5⟩), .relay 0, .ingest 0 .closed,
    .ingest 0 .stored, .ingest 0 .stored, .ingest 0 .locked, .close 0]

theorem holdsLive_iff_orderly_recorded :
    ∃ final, run (step Codecs.hello) (start (fun _ => none) []) attended = some final ∧
      final.watchers = [.gone] ∧
      Throughout (step Codecs.hello) (fun world => world.HoldsLive Codecs.hello)
        (start (fun _ => none) []) attended := by
  refine ⟨_, rfl, rfl,
    (holdsLive_iff_orderly Codecs.hello (fun _ => none) [] attended _ rfl).mpr ?_⟩
  refine .cons trivial rfl ?_
  -- The stream has a session only from the moment that the hub is locked.
  refine .cons (by rintro _ ⟨⟩ ⟨⟩) rfl (.cons (by rintro _ ⟨⟩ ⟨⟩) rfl (.cons ?_ rfl ?_))
  · rintro _ ⟨⟩ -
    rfl
  refine .cons ⟨0, _, rfl, id, .inl rfl⟩ rfl (.cons trivial rfl (.cons trivial rfl ?_))
  refine .cons (by rintro _ ⟨⟩ ⟨⟩) rfl (.cons trivial rfl (.cons (by rintro _ ⟨⟩ ⟨⟩) rfl ?_))
  refine .cons (by rintro _ ⟨⟩ ⟨⟩) rfl (.cons (by rintro _ ⟨⟩ ⟨⟩) rfl ?_)
  exact .cons (by rintro _ ⟨⟩ ⟨⟩) rfl (.cons trivial rfl trivial)

/-- A watcher that comes to the web when the session is over waits for ever. -/
theorem not_holdsLive_late :
    ∃ world, run (step Codecs.hello) (start (fun _ => none) [])
        (recorded ++ [.watch .web 7, .listen 0, .tail 0]) = some world ∧
      world.watchers = [.relaying 7 0] ∧ world.backend.hub.channels 7 = some 1 ∧
      world.backend.hub.receivers = [Receiver.fresh 1] ∧ ¬ world.InProgress 7 ∧
      ¬ world.HoldsLive Codecs.hello := by
  refine ⟨_, rfl, rfl, rfl, rfl, and_iff_left_of_imp ?_ |>.mpr ?_⟩
  · exact fun finished live => finished (live.tidy 7 1 rfl)
  · rintro ⟨index, ingest, has, concerns⟩
    obtain rfl := Option.some.inj (List.mem_singleton.mp (List.mem_of_getElem? has))
    exact concerns.1 trivial

end SessionWorld

end Hermione
