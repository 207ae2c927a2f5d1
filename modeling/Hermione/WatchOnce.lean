import Hermione.Recording
import Hermione.SessionWatch

/-!
# Which chunks a watcher is sent

The numbers of what a watcher was sent and has yet to read are those of the session's
chunks, each once and in order, exactly when every page of the history was read at
the right time: when the page's chunks that were in the table were those that had
been fanned out before the watcher listened.
-/

namespace Hermione

open SessionIngest

namespace SessionIngest

variable {codecs : Codecs} {id : Uuid} {state next : State} {event : Event}

/-- A call that is running sends on the channel the hub has for its session. -/
structure Fanning (id : Uuid) (state : State) : Prop where
  bound : ¬ state.call.phase.Done → ∀ sender, state.call.bcast = some sender →
    state.backend.hub.channels id = some sender
  sends : state.call.sessionId.isSome → state.call.bcast.isSome

/-- The hub keeps a session's channel for as long as its call runs. -/
theorem channels_of_moves {sender : Nat}
    (bound : state.backend.hub.channels id = some sender)
    (running : ¬ next.call.phase.Done) (moves : Moves codecs state event next) :
    next.backend.hub.channels id = some sender := by
  cases moves with
  | opened current opening | watch key => exact Hub.channel_channels_of_eq_some bound
  | removed => exact (running trivial).elim
  | chunk | full | finish | closed | tick => simpa using bound
  | _ => exact bound

theorem running_of_moves (running : ¬ next.call.phase.Done)
    (moves : Moves codecs state event next) :
    ¬ state.call.phase.Done := by
  intro done
  obtain ⟨-, same, -⟩ := not_moves_of_done done moves
  exact running (same ▸ done)

/-- The sender and the session change together, when the channel is opened. -/
theorem bcast_cases (moves : Moves codecs state event next) :
    (next.call.bcast = state.call.bcast ∧ next.call.sessionId = state.call.sessionId) ∨
      ∃ current, state.call.phase = .opening current ∧
        next.call.bcast = some (state.backend.hub.channel current).2 ∧
        next.backend.hub = (state.backend.hub.channel current).1 := by
  cases moves with
  | opened current opening => exact .inr ⟨current, opening, rfl, rfl⟩
  | full | finish | closed | tick => exact .inl ⟨by simp [accept], by simp [accept]⟩
  | flushed | counted | countFailed => exact .inl ⟨by simp, by simp⟩
  | finalized current resume | finalizeFailed current resume =>
      cases resume <;> exact .inl ⟨rfl, rfl⟩
  | _ => exact .inl ⟨rfl, rfl⟩

theorem Fanning.step (fanning : Fanning id state) (named : Named id state.call)
    (moves : Moves codecs state event next) :
    Fanning id next := by
  rcases bcast_cases moves with ⟨bcast, sessionId⟩ | ⟨current, opening, bcast, hub⟩
  · constructor
    · intro running sender given
      rw [bcast] at given
      have before := fanning.bound (running_of_moves running moves) sender given
      exact channels_of_moves before running moves
    · rw [bcast, sessionId]
      exact fanning.sends
  · obtain rfl := named.opening current opening
    constructor
    · intro running sender given
      rw [bcast] at given
      rw [hub, ← Option.some.inj given]
      exact Hub.channel_channels_self
    · simp [bcast]

/-- What a step is to somebody's receiver: nothing, or a chunk that is fanned out. -/
theorem receiver_cases (sends : state.call.sessionId.isSome → state.call.bcast.isSome)
    {receiver : Nat} {listening : Broadcast.Receiver Fanned}
    (found : state.backend.hub.receivers[receiver]? = some listening)
    (kept : event ≠ .unwatch receiver) (moves : Moves codecs state event next) :
    (next.call.seq = state.call.seq ∧
      next.backend.hub.receivers[receiver]? = some listening) ∨
      ∃ sender chunk, event = .chunk chunk ∧ state.call.bcast = some sender ∧
        state.call.phase = .selecting ∧ next.call.seq = state.call.seq + 1 ∧
        next.backend.hub.receivers[receiver]? =
          some (listening.offer SESSION_HUB_CAP sender ⟨state.call.seq, chunk⟩) := by
  cases moves with
  | chunk current chunk selecting opened =>
      obtain ⟨sender, bcast⟩ := Option.isSome_iff_exists.mp (sends (by simp [opened]))
      refine .inr ⟨sender, chunk, rfl, bcast, selecting, rfl, ?_⟩
      simp [accept, bcast, Hub.send, found]
  | full current chunk selecting opened full =>
      obtain ⟨sender, bcast⟩ := Option.isSome_iff_exists.mp (sends (by simp [opened]))
      refine .inr ⟨sender, chunk, rfl, bcast, selecting, by simp [accept], ?_⟩
      simp [accept, bcast, Hub.send, found]
  | finish | closed | tick => exact .inl ⟨by simp, by simpa using found⟩
  | flushed | counted | countFailed => exact .inl ⟨by simp, found⟩
  | finalized current resume | finalizeFailed current resume =>
      cases resume <;> exact .inl ⟨rfl, found⟩
  | opened current opening => exact .inl ⟨rfl, by simpa using found⟩
  | watch key =>
      refine .inl ⟨rfl, ?_⟩
      have within := (List.getElem?_eq_some_iff.mp found).1
      simpa [watch, Hub.listen, List.getElem?_append_left, within] using found
  | unwatch other =>
      have different : receiver ≠ other := by
        rintro rfl
        exact kept rfl
      refine .inl ⟨rfl, ?_⟩
      rw [← found]
      exact Broadcast.getElem?_dropReceiver_of_ne different
  | _ => exact .inl ⟨rfl, found⟩

end SessionIngest

namespace SessionWatch

/-- When a page is read, exactly those of its chunks are in the table that had
been fanned out before the watcher listened.  Where the page cannot be read and the
watcher goes on all the same, all of those were in the pages before. -/
def Timely (viewer : Viewer) (id : Uuid) (state : State) : Event → Prop
  | .page =>
      match state.phase with
      | .reading _ number =>
          ∀ seq, number * HISTORY_PAGE ≤ seq → seq < number * HISTORY_PAGE + HISTORY_PAGE →
            ((∃ row ∈ rowsOf id state.ingest.backend.events, row.seq = seq) ↔
              seq < state.since)
      | _ => True
  | .pageFailed =>
      match viewer, state.phase with
      | .web, .reading _ number => state.since ≤ number * HISTORY_PAGE
      | _, _ => True
  | _ => True

/-- A receiver on the session's channel that has been read up to chunk `next`. -/
structure Tuned (id : Uuid) (receiver : Nat) (listening : Broadcast.Receiver Fanned)
    (next : Nat) (ingest : SessionIngest.State) : Prop where
  found : ingest.backend.hub.receivers[receiver]? = some listening
  alive : listening.alive = true
  bound : ¬ ingest.call.phase.Done →
    ingest.backend.hub.channels id = some listening.channel
  unread : listening.lagged = false →
    next ≤ ingest.call.seq ∧
      listening.unread.map Fanned.seq = List.range' next (ingest.call.seq - next)

section Tuned

variable {codecs : Codecs} {id : Uuid} {receiver next : Nat}
variable {listening : Broadcast.Receiver Fanned} {ingest later : SessionIngest.State}
variable {event : SessionIngest.Event}

/-- A receiver hears every chunk that is fanned out, unless it lags. -/
theorem Tuned.step (tuned : Tuned id receiver listening next ingest)
    (fanning : Fanning id ingest) (kept : event ≠ .unwatch receiver)
    (moves : Moves codecs ingest event later) :
    ∃ listening', Tuned id receiver listening' next later ∧
      (listening'.lagged = false → listening.lagged = false) := by
  have bound (running : ¬ later.call.phase.Done) :
      later.backend.hub.channels id = some listening.channel :=
    channels_of_moves (tuned.bound (running_of_moves running moves)) running moves
  rcases receiver_cases fanning.sends tuned.found kept moves with
    ⟨seq, found⟩ | ⟨sender, chunk, -, bcast, selecting, seq, found⟩
  · exact ⟨listening, ⟨found, tuned.alive, bound, by rw [seq]; exact tuned.unread⟩,
      fun steady => steady⟩
  · have running : ¬ ingest.call.phase.Done := by simp [selecting, SessionIngest.Phase.Done]
    have same : listening.channel = sender := by
      have := fanning.bound running sender bcast
      rw [tuned.bound running] at this
      exact Option.some.inj this
    have listens : listening.listensOn sender = true := by
      simp [Broadcast.Receiver.listensOn, tuned.alive, same]
    refine ⟨_, ⟨found, by simpa using tuned.alive, by simpa using bound, ?_⟩,
      Broadcast.Receiver.steady_of_offer⟩
    intro steady
    obtain ⟨behind, unread⟩ := tuned.unread (Broadcast.Receiver.steady_of_offer steady)
    rw [Broadcast.Receiver.offer_of_listensOn listens steady, seq]
    refine ⟨by omega, ?_⟩
    rw [List.map_append, unread, show ingest.call.seq + 1 - next =
      ingest.call.seq - next + 1 by omega, List.range'_concat]
    simp [behind]

end Tuned

/-- Where a watcher is, given whether every page so far was read at the right
time. -/
def Heard (id : Uuid) (state : State) (held : Prop) : Prop :=
  match state.phase with
  | .away => held ∧ state.sent = []
  | .handed sender =>
      held ∧ state.sent = [] ∧
        (¬ state.ingest.call.phase.Done →
          state.ingest.backend.hub.channels id = some sender)
  | .reading receiver number =>
      (∃ listening, Tuned id receiver listening state.since state.ingest) ∧
        (∀ seq ∈ state.sent.map Sent.seq, seq < number * HISTORY_PAGE) ∧
        (held ↔
          state.sent.map Sent.seq = List.range (min state.since (number * HISTORY_PAGE)))
  | .relaying receiver =>
      ∃ past relayed listening,
        state.sent.map Sent.seq = past ++ relayed ∧
        Tuned id receiver listening (state.since + relayed.length) state.ingest ∧
        (held ↔ past = List.range state.since) ∧
        (listening.lagged = false → relayed = List.range' state.since relayed.length)
  | .gone => True

structure Watched (id : Uuid) (state : State) (held : Prop) : Prop where
  recorded : Recorded id state.ingest
  fanning : Fanning id state.ingest
  heard : Heard id state held

variable {codecs : Codecs} {viewer : Viewer} {id : Uuid} {state next : State} {event : Event}

/-- The history is the leading chunks, in order. -/
theorem history_seq (recorded : Recorded id state.ingest) :
    (history id state.ingest.backend.events).map TerminalRow.seq =
      List.range (rowsOf id state.ingest.backend.events).length := by
  have numbered := recorded.stored_seq
  have sorted : (List.range (rowsOf id state.ingest.backend.events).length).Pairwise (· ≤ ·) :=
    List.pairwise_le_range
  rw [← numbered, List.pairwise_map] at sorted
  rw [history, sorted.insertionSort_eq, numbered]

theorem stored_iff (recorded : Recorded id state.ingest) (seq : Nat) :
    (∃ row ∈ rowsOf id state.ingest.backend.events, row.seq = seq) ↔
      seq < (rowsOf id state.ingest.backend.events).length := by
  rw [← List.mem_range, ← recorded.stored_seq, List.mem_map]

/-- A page at the end of which nothing was left to read. -/
theorem page_eq_nil_iff (recorded : Recorded id state.ingest) (number : Nat) :
    Paging.page HISTORY_PAGE number (history id state.ingest.backend.events) = [] ↔
      (rowsOf id state.ingest.backend.events).length ≤ number * HISTORY_PAGE := by
  rw [← List.map_eq_nil_iff (f := TerminalRow.seq), Paging.map_page, history_seq recorded,
    Paging.page_range]
  simp [HISTORY_PAGE]
  omega

/-- The recorder's call goes on. -/
theorem Watched.ingest {held : Prop} (watched : Watched id state held)
    {event : SessionIngest.Event} {later : SessionIngest.State}
    (may : allowed id state event = true) (moves : Moves codecs state.ingest event later) :
    Watched id { state with ingest := later } held := by
  have single (drawn : Uuid) (start : SessionStart) (same : event = .start drawn start) :
      drawn = id := by
    subst same
    simp only [allowed, Bool.and_eq_true, decide_eq_true_eq] at may
    exact may.1
  refine ⟨watched.recorded.step single moves,
    watched.fanning.step watched.recorded.named moves, ?_⟩
  have kept (receiver : Nat) (holds : state.phase.receiver = some receiver) :
      event ≠ .unwatch receiver := by
    rintro rfl
    simp [allowed, holds] at may
  have heard := watched.heard
  unfold Heard at heard ⊢
  cases phase : state.phase with
  | away | gone => simp_all
  | handed sender =>
      simp only [phase] at heard ⊢
      refine ⟨heard.1, heard.2.1, fun running => ?_⟩
      exact channels_of_moves (heard.2.2 (running_of_moves running moves)) running moves
  | reading receiver number =>
      simp only [phase] at heard ⊢
      obtain ⟨⟨listening, tuned⟩, rest⟩ := heard
      obtain ⟨later, tuned, -⟩ :=
        tuned.step watched.fanning (kept receiver (by rw [phase]; rfl)) moves
      exact ⟨⟨later, tuned⟩, rest⟩
  | relaying receiver =>
      simp only [phase] at heard ⊢
      obtain ⟨past, relayed, listening, sent, tuned, right, steady⟩ := heard
      obtain ⟨later, tuned, before⟩ :=
        tuned.step watched.fanning (kept receiver (by rw [phase]; rfl)) moves
      exact ⟨past, relayed, later, sent, tuned, right, steady ∘ before⟩

/-- What a watcher does on the hub leaves the recorder's books alone. -/
theorem recorded_withHub (recorded : Recorded id state.ingest) (hub : Hub Uuid Fanned) :
    Recorded id (withHub state hub).ingest :=
  ⟨recorded.named, recorded.numbered, recorded.mine, recorded.kept⟩

theorem fanning_withHub (fanning : Fanning id state.ingest) {hub : Hub Uuid Fanned}
    (bound : ∀ sender, state.ingest.backend.hub.channels id = some sender →
      hub.channels id = some sender) :
    Fanning id (withHub state hub).ingest :=
  ⟨fun running sender given => bound sender (fanning.bound running sender given),
    fanning.sends⟩

/-- The sender is handed out. -/
theorem Watched.channel {held : Prop} (watched : Watched id state held)
    (away : state.phase = .away) :
    Watched id
      { withHub state (state.ingest.backend.hub.channel id).1 with
        phase := .handed (state.ingest.backend.hub.channel id).2 } held := by
  have heard := watched.heard
  simp only [Heard, away] at heard
  refine ⟨recorded_withHub watched.recorded _, fanning_withHub watched.fanning ?_, ?_⟩
  · intro sender bound
    exact Hub.channel_channels_of_eq_some bound
  · exact ⟨heard.1, heard.2, fun _ => Hub.channel_channels_self⟩

/-- A receiver made now hears what is fanned out from now on. -/
theorem Watched.subscribe {held : Prop} (watched : Watched id state held) {sender : Nat}
    (handed : state.phase = .handed sender) :
    Watched id
      { withHub state (state.ingest.backend.hub.listen sender).1 with
        phase := .reading (state.ingest.backend.hub.listen sender).2 0
        since := state.ingest.call.seq } held := by
  have heard := watched.heard
  simp only [Heard, handed] at heard
  obtain ⟨holds, none, bound⟩ := heard
  refine ⟨recorded_withHub watched.recorded _,
    fanning_withHub watched.fanning fun _ bound => bound, ?_⟩
  refine ⟨⟨Broadcast.Receiver.fresh sender, ?_⟩, ?_, ?_⟩
  · refine ⟨?_, rfl, bound, ?_⟩
    · simp [withHub, Hub.listen]
    · simp [withHub, Broadcast.Receiver.fresh]
  · simp [withHub, none]
  · simp [withHub, none, holds]

/-- A page with chunks on it. -/
theorem Watched.page {held : Prop} (watched : Watched id state held) {receiver number : Nat}
    (reading : state.phase = .reading receiver number) :
    Watched id
      { state with
        phase := .reading receiver (number + 1)
        sent := state.sent ++
          (Paging.page HISTORY_PAGE number (history id state.ingest.backend.events)).map
            (stored codecs viewer) } (held ∧ Timely viewer id state .page) := by
  have heard := watched.heard
  simp only [Heard, reading] at heard
  obtain ⟨tuned, before, right⟩ := heard
  have seqs : (state.sent ++
      (Paging.page HISTORY_PAGE number (history id state.ingest.backend.events)).map
        (stored codecs viewer)).map Sent.seq =
      state.sent.map Sent.seq ++ Paging.page HISTORY_PAGE number
        (List.range (rowsOf id state.ingest.backend.events).length) := by
    rw [List.map_append, List.map_map, ← history_seq watched.recorded, Paging.map_page]
    rfl
  refine ⟨watched.recorded, watched.fanning, tuned, ?_, ?_⟩
  · intro seq member
    rw [seqs, List.mem_append, Paging.mem_page_range] at member
    rcases member with early | ⟨-, within, -⟩
    · have := before seq early
      rw [Nat.succ_mul]
      omega
    · rw [Nat.succ_mul]
      exact within
  · rw [seqs, Nat.succ_mul, Paging.append_page_range_iff (by decide) before, right]
    simp only [Timely, reading, stored_iff watched.recorded]

/-- The history is over, with everything before the page passed on. -/
theorem Watched.relay_of_reading {held timely : Prop} (watched : Watched id state held)
    {receiver number : Nat} (reading : state.phase = .reading receiver number)
    (timely_iff : timely ↔ state.since ≤ number * HISTORY_PAGE) :
    Watched id { state with phase := .relaying receiver } (held ∧ timely) := by
  have heard := watched.heard
  simp only [Heard, reading] at heard
  obtain ⟨⟨listening, tuned⟩, before, right⟩ := heard
  refine ⟨watched.recorded, watched.fanning, state.sent.map Sent.seq, [], listening,
    by simp, by simpa using tuned, ?_, by simp⟩
  rw [right, timely_iff]
  constructor
  · rintro ⟨whole, covered⟩
    rw [whole, min_eq_left covered]
  · intro whole
    have covered : state.since ≤ number * HISTORY_PAGE := by
      by_contra past
      have last : number * HISTORY_PAGE ∈ state.sent.map Sent.seq := by
        rw [whole, List.mem_range]
        exact Nat.lt_of_not_le past
      have := before _ last
      omega
    exact ⟨by rw [whole, min_eq_left covered], covered⟩

/-- A chunk that was heard is passed on. -/
theorem Watched.relay {held : Prop} (watched : Watched id state held) {receiver : Nat}
    (relaying : state.phase = .relaying receiver) {fanned : Fanned} {hub : Hub Uuid Fanned}
    (received : state.ingest.backend.hub.recv receiver = some (fanned, hub)) :
    Watched id
      { withHub state hub with sent := state.sent ++ [live codecs viewer fanned] } held := by
  have heard := watched.heard
  simp only [Heard, relaying] at heard
  obtain ⟨past, relayed, listening, sent, tuned, right, steady⟩ := heard
  obtain ⟨⟨msg, receivers⟩, read, same⟩ := Option.map_eq_some_iff.mp received
  obtain ⟨rfl, rfl⟩ := Prod.mk.inj same
  obtain ⟨listening', unread, found, alive, queued, rfl⟩ :=
    Broadcast.recv_eq_some_iff.mp read
  obtain rfl : listening' = listening := by
    rw [tuned.found] at found
    exact (Option.some.inj found).symm
  refine ⟨recorded_withHub watched.recorded _,
    fanning_withHub watched.fanning fun _ bound => bound, ?_⟩
  simp only [Heard, withHub, relaying]
  -- What is read next is the chunk after those that were relayed.
  have next_seq (clear : listening'.lagged = false) :
      msg.seq = state.since + relayed.length ∧
        msg.seq < state.ingest.call.seq ∧
        unread.map Fanned.seq =
          List.range' (msg.seq + 1) (state.ingest.call.seq - (msg.seq + 1)) := by
    obtain ⟨behind, waiting⟩ := tuned.unread clear
    rw [queued, List.map_cons] at waiting
    obtain ⟨first, some, rest⟩ := List.range'_eq_cons_iff.mp waiting.symm
    refine ⟨first.symm, by omega, ?_⟩
    rw [rest, ← first]
    congr 1
  refine ⟨past, relayed ++ [msg.seq], { listening' with unread }, ?_, ?_, right, ?_⟩
  · simp [sent, live]
  · refine ⟨?_, alive, tuned.bound, ?_⟩
    · exact List.getElem?_set_self (List.getElem?_eq_some_iff.mp found).1
    · intro clear
      obtain ⟨first, behind, waiting⟩ := next_seq clear
      have upto : state.since + (relayed ++ [msg.seq]).length = msg.seq + 1 := by
        rw [List.length_append, List.length_singleton, first]
        omega
      rw [upto]
      exact ⟨behind, waiting⟩
  · intro clear
    obtain ⟨first, -, -⟩ := next_seq clear
    rw [List.length_append, List.length_singleton, List.range'_concat, ← steady clear, first]
    simp

/-- The watcher hangs up, or is cut off. -/
theorem Watched.gone {held : Prop} (watched : Watched id state held) (timely : Prop)
    (receiver : Nat) :
    Watched id
      { withHub state (state.ingest.backend.hub.dropReceiver receiver) with phase := .gone }
      (held ∧ timely) :=
  ⟨recorded_withHub watched.recorded _,
    fanning_withHub watched.fanning fun _ bound => bound, trivial⟩

theorem Watched.step {held : Prop} (watched : Watched id state held)
    (stepped : step codecs viewer id state event = some next) :
    Watched id next (held ∧ Timely viewer id state event) := by
  unfold SessionWatch.step at stepped
  split at stepped
  · rename_i event phase
    split at stepped
    · rename_i may
      obtain ⟨later, moved, rfl⟩ := Option.map_eq_some_iff.mp stepped
      simpa [Timely] using watched.ingest may (moves_of_step moved)
    · simp at stepped
  · rename_i away
    obtain rfl := Option.some.inj stepped
    simp only [Timely, and_true]
    exact watched.channel away
  · rename_i sender handed
    obtain rfl := Option.some.inj stepped
    simp only [Timely, and_true]
    exact watched.subscribe handed
  · rename_i receiver number reading
    split at stepped
    · rename_i empty
      obtain rfl := Option.some.inj stepped
      apply watched.relay_of_reading reading
      rw [page_eq_nil_iff watched.recorded] at empty
      simp only [Timely, reading, stored_iff watched.recorded]
      constructor
      · intro window
        have first := window (number * HISTORY_PAGE) (Nat.le_refl _) (by simp [HISTORY_PAGE])
        omega
      · intro covered seq after within
        omega
    · obtain rfl := Option.some.inj stepped
      exact watched.page reading
  · rename_i receiver number reading
    split at stepped
    · obtain rfl := Option.some.inj stepped
      exact watched.gone _ receiver
    · obtain rfl := Option.some.inj stepped
      exact watched.relay_of_reading reading (by simp [Timely, reading])
  · rename_i receiver relaying
    obtain ⟨⟨fanned, hub⟩, received, rfl⟩ := Option.map_eq_some_iff.mp stepped
    simpa [Timely] using watched.relay relaying received
  · obtain rfl := Option.some.inj stepped
    exact watched.gone _ _
  · obtain rfl := Option.some.inj stepped
    exact watched.gone _ _
  · simp at stepped

theorem watched_start (backend : Backend) (admitted : Except Status (Uuid × Option Str))
    (unused : rowsOf id backend.events = []) :
    Watched id (start backend admitted) True := by
  refine ⟨recorded_start unused, ⟨by simp [start, SessionIngest.start], by simp [start,
    SessionIngest.start]⟩, trivial, rfl⟩

open EventRuns

/-- The numbers of what a watcher that relays was sent, with those of what its
receiver has yet to read, are those of the chunks fanned out so far, each once and in
order, exactly when every page of the history was read at the right time. -/
theorem numbersOnce_iff (codecs : Codecs) (viewer : Viewer) (id : Uuid) (backend : Backend)
    (admitted : Except Status (Uuid × Option Str)) (events : List Event) (state : State)
    (receiver : Nat) (listening : Broadcast.Receiver Fanned)
    (unused : rowsOf id backend.events = [])
    (ran : run (step codecs viewer id) (start backend admitted) events = some state)
    (relaying : state.phase = .relaying receiver)
    (found : state.ingest.backend.hub.receivers[receiver]? = some listening)
    (steady : listening.lagged = false) :
    state.sent.map Sent.seq ++ listening.unread.map Fanned.seq =
        List.range state.ingest.call.seq ↔
      Guarded (step codecs viewer id) (Timely viewer id) (start backend admitted) events := by
  have watched := tracked_of_run (fun _ _ _ _ watched stepped => watched.step stepped)
    (watched_start backend admitted unused) ran
  rw [true_and] at watched
  have heard := watched.heard
  simp only [Heard, relaying] at heard
  obtain ⟨past, relayed, listening', sent, tuned, right, order⟩ := heard
  obtain rfl : listening' = listening := by
    rw [tuned.found] at found
    exact Option.some.inj found
  obtain ⟨behind, unread⟩ := tuned.unread steady
  have onwards : relayed ++ listening'.unread.map Fanned.seq =
      List.range' state.since (state.ingest.call.seq - state.since) := by
    have joined := @List.range'_append_1 state.since relayed.length
      (state.ingest.call.seq - (state.since + relayed.length))
    rw [unread, order steady, List.length_range', joined]
    congr 1
    omega
  have whole : List.range state.ingest.call.seq =
      List.range state.since ++
        List.range' state.since (state.ingest.call.seq - state.since) := by
    have joined := @List.range'_append_1 0 state.since (state.ingest.call.seq - state.since)
    rw [Nat.zero_add] at joined
    rw [List.range_eq_range', List.range_eq_range', joined]
    congr 1
    omega
  rw [sent, List.append_assoc, onwards, whole, List.append_left_inj, right]

end SessionWatch

end Hermione
