import Hermione.RecordingPrefix
import Hermione.WatchOnce

/-!
# A watcher is sent every chunk once

What a watcher was sent, and what its receiver has yet to read, shows the chunks that
the recorder's call was given since the start, each once and in order, exactly when
every page of the history was read at the right time.

Whatever the order of the steps, a frame shows the chunk whose number it bears: the
rows of the history are the chunks' rows and the hub carries the chunks themselves.
So the numbers decide.
-/

namespace Hermione

open SessionIngest

namespace SessionWatch

/-- A frame of a service tells the stream, the offset and the bytes of a chunk. -/
def Shows (codecs : Codecs) (viewer : Viewer) (chunk : TerminalChunk) : Frame → Prop
  | .chunk sent =>
      viewer = .grpc ∧ streamLabel sent.stream = streamLabel chunk.stream ∧
        sent.offsetMs = chunk.offsetMs ∧ sent.data = chunk.data
  | .event dto =>
      viewer = .web ∧ dto.stream = streamLabel chunk.stream ∧ dto.offsetMs = chunk.offsetMs ∧
        codecs.decode dto.data = some chunk.data ∧ dto.text = codecs.plain chunk.data

/-- The entries show the chunks, each once and in order from number 0 on. -/
structure SentOnce (codecs : Codecs) (viewer : Viewer) (chunks : List TerminalChunk)
    (entries : List Sent) : Prop where
  numbered : entries.map Sent.seq = List.range chunks.length
  shown : List.Forall₂ (fun entry chunk => Shows codecs viewer chunk entry.frame) entries chunks

/-- What an event brings to the recorder's call. -/
def Event.ingested : Event → Option SessionIngest.Event
  | .ingest event => some event
  | _ => none

/-- The chunks that the recorder's call was given since the start. -/
def chunksOf (events : List Event) : List TerminalChunk :=
  chunksAfterStart (events.filterMap Event.ingested)

section Frames

variable {codecs : Codecs} {viewer : Viewer} {id : Uuid} {chunk : TerminalChunk}

/-- A frame made of a chunk's row, or of the chunk as it comes over the hub. -/
inductive Conveys (codecs : Codecs) (viewer : Viewer) (id : Uuid) (chunk : TerminalChunk) :
    Sent → Prop where
  | stored (seq : Nat) : Conveys codecs viewer id chunk
      (stored codecs viewer (chunkRow codecs id seq chunk))
  | live (seq : Nat) : Conveys codecs viewer id chunk (live codecs viewer ⟨seq, chunk⟩)

/-- The label of a stream survives being written down. -/
theorem streamLabel_number (label : StreamLabel) :
    streamLabel
      (match label with
        | .stdin => StreamKind.stdin.number
        | .stdout => StreamKind.stdout.number) = label := by
  cases label <;> rfl

/-- Both kinds of frame show the chunk that they were made of. -/
theorem Conveys.shows {entry : Sent} (conveys : Conveys codecs viewer id chunk entry)
    (decodes : codecs.decode (codecs.encode chunk.data) = some chunk.data) :
    Shows codecs viewer chunk entry.frame := by
  cases conveys with
  | stored seq =>
      cases viewer with
      | grpc =>
          refine ⟨rfl, streamLabel_number _, rfl, ?_⟩
          simp [decodeChunk, chunkRow, decodes]
      | web => exact ⟨rfl, rfl, rfl, decodes, rfl⟩
  | live seq =>
      cases viewer with
      | grpc => exact ⟨rfl, rfl, rfl, rfl⟩
      | web => exact ⟨rfl, rfl, rfl, decodes, rfl⟩

/-- Entries that show the chunks they are numbered by show all of them as soon as the
numbers do. -/
theorem sentOnce_of_numbered {chunks : List TerminalChunk} {entries : List Sent}
    (told : ∀ entry ∈ entries, ∃ chunk, chunks[entry.seq]? = some chunk ∧
      Shows codecs viewer chunk entry.frame)
    (numbered : entries.map Sent.seq = List.range chunks.length) :
    SentOnce codecs viewer chunks entries := by
  refine ⟨numbered, List.forall₂_iff_get.mpr ⟨?_, ?_⟩⟩
  · simpa using congrArg List.length numbered
  · intro index within there
    obtain ⟨chunk, found, shown⟩ := told _ (List.get_mem entries ⟨index, within⟩)
    have seq : (entries.get ⟨index, within⟩).seq = index := by
      have here := congrArg (fun numbers => numbers[index]?) numbered
      simpa [there, within] using here
    rw [seq, List.getElem?_eq_getElem there] at found
    rwa [← Option.some.inj found] at shown

end Frames

section Runs

variable {codecs : Codecs} {viewer : Viewer} {id : Uuid} {past : List Event} {event : Event}
variable {state next : State}

theorem chunksOf_of_not_ingested (other : event.ingested = none) :
    chunksOf (past ++ [event]) = chunksOf past := by
  simp [chunksOf, List.filterMap_append, other]

theorem ingested_concat (past : List Event) (event : SessionIngest.Event) :
    (past ++ [Event.ingest event]).filterMap Event.ingested =
      past.filterMap Event.ingested ++ [event] := by
  simp [List.filterMap_append, Event.ingested]

/-- A step of the call adds the chunk it brought, unless there was no start. -/
theorem chunksOf_concat (past : List Event) (event : SessionIngest.Event) :
    chunksOf (past ++ [.ingest event]) = chunksOf past ∨
      chunksOf (past ++ [.ingest event]) = chunksOf past ++ event.toChunk.toList := by
  rw [chunksOf, ingested_concat]
  exact chunksAfterStart_concat _ event

/-- The chunks that were given already stay where they are. -/
theorem getElem?_chunksOf_concat {seq : Nat} {chunk : TerminalChunk}
    (found : (chunksOf past)[seq]? = some chunk) :
    (chunksOf (past ++ [event]))[seq]? = some chunk := by
  cases event with
  | ingest event =>
      rcases chunksOf_concat past event with same | more
      · rwa [same]
      · rw [more, List.getElem?_append_left (List.getElem?_eq_some_iff.mp found).1]
        exact found
  | _ =>
      rw [chunksOf_of_not_ingested rfl]
      exact found

/-- However the steps fall, what is sent and what is heard are the call's chunks under
their numbers. -/
structure Faithful (codecs : Codecs) (viewer : Viewer) (id : Uuid) (past : List Event)
    (state : State) : Prop where
  follows : Follows codecs id (past.filterMap Event.ingested) state.ingest
  sent : ∀ entry ∈ state.sent, ∃ chunk, (chunksOf past)[entry.seq]? = some chunk ∧
    Conveys codecs viewer id chunk entry
  heard : ∀ receiver, state.phase.receiver = some receiver →
    ∃ listening, state.ingest.backend.hub.receivers[receiver]? = some listening ∧
      ∀ fanned ∈ listening.unread, (chunksOf past)[fanned.seq]? = some fanned.chunk

/-- A row of the table is the row of a chunk. -/
theorem Faithful.row (faithful : Faithful codecs viewer id past state) {row : TerminalRow}
    (member : row ∈ rowsOf id state.ingest.backend.events) :
    ∃ chunk, (chunksOf past)[row.seq]? = some chunk ∧
      row = chunkRow codecs id row.seq chunk := by
  have taken := faithful.follows.recorded.stored.subset member
  rw [faithful.follows.accepted, chunkRows, List.mem_mapIdx] at taken
  obtain ⟨seq, within, rfl⟩ := taken
  exact ⟨_, List.getElem?_eq_getElem within, rfl⟩

/-- The recorder's call goes on. -/
theorem Faithful.ingest (faithful : Faithful codecs viewer id past state)
    (fanning : Fanning id state.ingest) {event : SessionIngest.Event}
    {later : SessionIngest.State} (may : allowed id state event = true)
    (stepped : SessionIngest.step codecs state.ingest event = some later) :
    Faithful codecs viewer id (past ++ [.ingest event]) { state with ingest := later } := by
  have single (drawn : Uuid) (start : SessionStart) (same : event = .start drawn start) :
      drawn = id := by
    subst same
    simp only [allowed, Bool.and_eq_true, decide_eq_true_eq] at may
    exact may.1
  have moves := moves_of_step stepped
  have follows : Follows codecs id ((past ++ [Event.ingest event]).filterMap Event.ingested)
      later := by
    rw [ingested_concat]
    exact faithful.follows.step single stepped
  refine ⟨follows, ?_, ?_⟩
  · intro entry member
    obtain ⟨chunk, found, conveys⟩ := faithful.sent entry member
    exact ⟨chunk, getElem?_chunksOf_concat found, conveys⟩
  · intro receiver holds
    obtain ⟨listening, found, waiting⟩ := faithful.heard receiver holds
    have kept : event ≠ .unwatch receiver := by
      rintro rfl
      simp [allowed, holds] at may
    rcases receiver_cases fanning.sends found kept moves with
      ⟨-, found⟩ | ⟨sender, chunk, rfl, -, -, seq, found⟩
    · refine ⟨listening, found, fun fanned queued => ?_⟩
      exact getElem?_chunksOf_concat (waiting fanned queued)
    · refine ⟨_, found, fun fanned queued => ?_⟩
      rcases Broadcast.Receiver.mem_offer queued with old | ⟨rfl, -⟩
      · exact getElem?_chunksOf_concat (waiting fanned old)
      · -- The chunk was numbered, so it is one of those after the start.
        have before : (chunksOf past).length = _ := faithful.follows.length_chunks
        have after : (chunksOf (past ++ [.ingest _])).length = _ := follows.length_chunks
        rcases chunksOf_concat past (.chunk chunk) with same | more
        · rw [same] at after
          omega
        · rw [more, ← before]
          exact List.getElem?_concat_length

/-- What a watcher does by itself brings the call nothing. -/
theorem Faithful.follows_watcher (faithful : Faithful codecs viewer id past state)
    (other : event.ingested = none)
    (events : next.ingest.backend.events = state.ingest.backend.events)
    (call : next.ingest.call = state.ingest.call)
    (record : next.ingest.record = state.ingest.record) :
    Follows codecs id ((past ++ [event]).filterMap Event.ingested) next.ingest := by
  have same : (past ++ [event]).filterMap Event.ingested = past.filterMap Event.ingested := by
    simp [List.filterMap_append, other]
  obtain ⟨⟨named, numbered, mine, kept⟩, settled, begun, accepted, whole⟩ := faithful.follows
  rw [same]
  refine ⟨⟨?_, ?_, ?_, ?_⟩, ?_, ?_, ?_, ?_⟩ <;> simpa only [events, call, record]

/-- A watcher that holds no receiver has heard nothing. -/
theorem heard_of_receiver_eq_none {chunks : List TerminalChunk}
    (none : state.phase.receiver = none) (receiver : Nat)
    (holds : state.phase.receiver = some receiver) :
    ∃ listening, state.ingest.backend.hub.receivers[receiver]? = some listening ∧
      ∀ fanned ∈ listening.unread, chunks[fanned.seq]? = some fanned.chunk := by
  rw [none] at holds
  cases holds

/-- A page of the history shows chunks. -/
theorem Faithful.page (faithful : Faithful codecs viewer id past state) (number : Nat)
    {entry : Sent}
    (member : entry ∈
      (Paging.page HISTORY_PAGE number (history id state.ingest.backend.events)).map
        (stored codecs viewer)) :
    ∃ chunk, (chunksOf past)[entry.seq]? = some chunk ∧
      Conveys codecs viewer id chunk entry := by
  obtain ⟨row, paged, rfl⟩ := List.mem_map.mp member
  have listed := List.mem_of_mem_drop (List.mem_of_mem_take paged)
  obtain ⟨chunk, found, same⟩ := faithful.row ((List.perm_insertionSort _ _).mem_iff.mp listed)
  refine ⟨chunk, found, ?_⟩
  rw [same]
  exact .stored row.seq

/-- What is heard and passed on is a chunk, and so is what is left to hear. -/
theorem Faithful.relay (faithful : Faithful codecs viewer id past state) {receiver : Nat}
    (relaying : state.phase = .relaying receiver) {fanned : Fanned} {hub : Hub Uuid Fanned}
    (received : state.ingest.backend.hub.recv receiver = some (fanned, hub)) :
    (chunksOf past)[fanned.seq]? = some fanned.chunk ∧
      ∃ listening, hub.receivers[receiver]? = some listening ∧
        ∀ fanned ∈ listening.unread, (chunksOf past)[fanned.seq]? = some fanned.chunk := by
  obtain ⟨listening, found, waiting⟩ := faithful.heard receiver (by rw [relaying]; rfl)
  obtain ⟨⟨msg, receivers⟩, read, same⟩ := Option.map_eq_some_iff.mp received
  obtain ⟨rfl, rfl⟩ := Prod.mk.inj same
  obtain ⟨listening', unread, there, -, queued, rfl⟩ := Broadcast.recv_eq_some_iff.mp read
  obtain rfl := Option.some.inj (there.symm.trans found)
  refine ⟨waiting msg (by simp [queued]), { listening' with unread }, ?_, ?_⟩
  · exact List.getElem?_set_self (List.getElem?_eq_some_iff.mp there).1
  · intro later member
    exact waiting later (by simp [queued, member])

theorem Faithful.step (faithful : Faithful codecs viewer id past state)
    (fanning : Fanning id state.ingest)
    (stepped : step codecs viewer id state event = some next) :
    Faithful codecs viewer id (past ++ [event]) next := by
  -- A watcher's own step adds no chunk.
  have sent (entry : Sent) (member : entry ∈ state.sent) :
      ∃ chunk, (chunksOf (past ++ [event]))[entry.seq]? = some chunk ∧
        Conveys codecs viewer id chunk entry := by
    obtain ⟨chunk, found, conveys⟩ := faithful.sent entry member
    exact ⟨chunk, getElem?_chunksOf_concat found, conveys⟩
  have heard (receiver : Nat) (holds : state.phase.receiver = some receiver) :
      ∃ listening, state.ingest.backend.hub.receivers[receiver]? = some listening ∧
        ∀ fanned ∈ listening.unread,
          (chunksOf (past ++ [event]))[fanned.seq]? = some fanned.chunk := by
    obtain ⟨listening, found, waiting⟩ := faithful.heard receiver holds
    exact ⟨listening, found, fun fanned queued => getElem?_chunksOf_concat (waiting fanned queued)⟩
  unfold SessionWatch.step at stepped
  split at stepped
  · rename_i event phase
    split at stepped
    · rename_i may
      obtain ⟨later, moved, rfl⟩ := Option.map_eq_some_iff.mp stepped
      exact faithful.ingest fanning may moved
    · cases stepped
  · obtain rfl := Option.some.inj stepped
    exact ⟨faithful.follows_watcher rfl rfl rfl rfl, sent, heard_of_receiver_eq_none rfl⟩
  · rename_i sender handed
    obtain rfl := Option.some.inj stepped
    refine ⟨faithful.follows_watcher rfl rfl rfl rfl, sent, ?_⟩
    intro receiver holds
    obtain rfl := Option.some.inj holds
    refine ⟨Broadcast.Receiver.fresh sender, by simp [withHub], ?_⟩
    simp [Broadcast.Receiver.fresh]
  · rename_i receiver number reading
    have listens : state.phase.receiver = some receiver := by
      rw [reading]
      rfl
    split at stepped
    · obtain rfl := Option.some.inj stepped
      refine ⟨faithful.follows_watcher rfl rfl rfl rfl, sent, ?_⟩
      intro other holds
      exact heard other (listens.trans holds)
    · obtain rfl := Option.some.inj stepped
      refine ⟨faithful.follows_watcher rfl rfl rfl rfl, ?_, ?_⟩
      · intro entry member
        rcases List.mem_append.mp member with before | paged
        · exact sent entry before
        · obtain ⟨chunk, found, conveys⟩ := faithful.page number paged
          exact ⟨chunk, getElem?_chunksOf_concat found, conveys⟩
      · intro other holds
        exact heard other (listens.trans holds)
  · rename_i receiver number reading
    split at stepped
    · obtain rfl := Option.some.inj stepped
      exact ⟨faithful.follows_watcher rfl rfl rfl rfl, sent, heard_of_receiver_eq_none rfl⟩
    · obtain rfl := Option.some.inj stepped
      refine ⟨faithful.follows_watcher rfl rfl rfl rfl, sent, ?_⟩
      intro other holds
      refine heard other (Eq.trans ?_ holds)
      rw [reading]
      rfl
  · rename_i receiver relaying
    obtain ⟨⟨fanned, hub⟩, received, rfl⟩ := Option.map_eq_some_iff.mp stepped
    obtain ⟨here, listening, found, waiting⟩ := faithful.relay relaying received
    refine ⟨faithful.follows_watcher rfl rfl rfl rfl, ?_, ?_⟩
    · intro entry member
      rcases List.mem_append.mp member with before | now
      · exact sent entry before
      · obtain rfl := List.mem_singleton.mp now
        exact ⟨fanned.chunk, getElem?_chunksOf_concat here, .live fanned.seq⟩
    · intro other holds
      simp only [withHub, relaying, Phase.receiver, Option.some.injEq] at holds
      subst holds
      exact ⟨listening, found, fun later queued => getElem?_chunksOf_concat (waiting later queued)⟩
  · obtain rfl := Option.some.inj stepped
    exact ⟨faithful.follows_watcher rfl rfl rfl rfl, sent, heard_of_receiver_eq_none rfl⟩
  · obtain rfl := Option.some.inj stepped
    exact ⟨faithful.follows_watcher rfl rfl rfl rfl, sent, heard_of_receiver_eq_none rfl⟩
  · cases stepped

theorem faithful_start {backend : Backend} {admitted : Except Status (Uuid × Option Str)}
    (unused : rowsOf id backend.events = []) :
    Faithful codecs viewer id [] (start backend admitted) := by
  refine ⟨follows_start unused, ?_, ?_⟩
  · simp [start]
  · simp [start, Phase.receiver]

open EventRuns

/-- What a watcher that relays was sent, with what its receiver has yet to read, shows
every chunk since the start, each once and in order, exactly when every page of the
history was read at the right time.  What the crate makes base64 of, it reads back. -/
theorem sentOnce_iff (codecs : Codecs) (viewer : Viewer) (id : Uuid) (backend : Backend)
    (admitted : Except Status (Uuid × Option Str)) (events : List Event) (state : State)
    (receiver : Nat) (listening : Broadcast.Receiver Fanned)
    (decodes : ∀ chunk ∈ chunksOf events,
      codecs.decode (codecs.encode chunk.data) = some chunk.data)
    (unused : rowsOf id backend.events = [])
    (ran : run (step codecs viewer id) (start backend admitted) events = some state)
    (relaying : state.phase = .relaying receiver)
    (found : state.ingest.backend.hub.receivers[receiver]? = some listening)
    (steady : listening.lagged = false) :
    SentOnce codecs viewer (chunksOf events)
        (state.sent ++ listening.unread.map (live codecs viewer)) ↔
      Guarded (step codecs viewer id) (Timely viewer id) (start backend admitted) events := by
  have numbers := numbersOnce_iff codecs viewer id backend admitted events state receiver
    listening unused ran relaying found steady
  obtain ⟨-, faithful⟩ := history_of_run
    (fun past state => (∃ held, Watched id state held) ∧ Faithful codecs viewer id past state)
    (by
      rintro past state event next - ⟨⟨held, watched⟩, faithful⟩ stepped
      exact ⟨⟨_, watched.step stepped⟩, faithful.step watched.fanning stepped⟩)
    ⟨⟨True, watched_start backend admitted unused⟩, faithful_start unused⟩ ran
  have length : (chunksOf events).length = state.ingest.call.seq :=
    faithful.follows.length_chunks
  have numbered : (state.sent ++ listening.unread.map (live codecs viewer)).map Sent.seq =
      state.sent.map Sent.seq ++ listening.unread.map Fanned.seq := by
    rw [List.map_append, List.map_map]
    rfl
  rw [← numbers, ← length, ← numbered]
  refine ⟨SentOnce.numbered, sentOnce_of_numbered ?_⟩
  intro entry member
  rcases List.mem_append.mp member with sent | waiting
  · obtain ⟨chunk, there, conveys⟩ := faithful.sent entry sent
    exact ⟨chunk, there, conveys.shows (decodes chunk (List.mem_of_getElem? there))⟩
  · obtain ⟨fanned, queued, rfl⟩ := List.mem_map.mp waiting
    obtain ⟨listening', here, heard⟩ := faithful.heard receiver (by rw [relaying]; rfl)
    obtain rfl := Option.some.inj (here.symm.trans found)
    have there := heard fanned queued
    have conveys : Conveys codecs viewer id fanned.chunk (live codecs viewer fanned) :=
      .live fanned.seq
    exact ⟨fanned.chunk, there, conveys.shows (decodes _ (List.mem_of_getElem? there))⟩

/-- A watcher that comes when the first chunk was flushed, and stays for the
second. -/
def punctual : List Event :=
  [.ingest (.start 7 ⟨"alice".toList, "bash".toList, 80, 24, []⟩), .ingest .stored,
    .ingest .locked, .ingest (.chunk ⟨1, [104, 105], 5⟩), .ingest .tick, .ingest .stored,
    .channel, .subscribe, .page, .page, .ingest (.chunk ⟨2, [104, 105], 9⟩), .relay]

theorem sentOnce_punctual :
    ∃ state listening,
      run (step Codecs.hello .grpc 7) (start Backend.empty (.ok (1, none))) punctual =
        some state ∧
      state.ingest.backend.hub.receivers[0]? = some listening ∧
      SentOnce Codecs.hello .grpc [⟨1, [104, 105], 5⟩, ⟨2, [104, 105], 9⟩]
        (state.sent ++ listening.unread.map (live Codecs.hello .grpc)) := by
  refine ⟨_, _, rfl, rfl, (sentOnce_iff Codecs.hello .grpc 7 Backend.empty (.ok (1, none))
    punctual _ 0 _ (by decide) rfl rfl rfl rfl rfl).mpr ?_⟩
  have stored (seq : Nat) :
      (∃ row ∈ [chunkRow Codecs.hello 7 0 ⟨1, [104, 105], 5⟩], row.seq = seq) ↔ seq < 1 := by
    simp only [List.mem_singleton, exists_eq_left, chunkRow]
    omega
  exact .cons trivial rfl <| .cons trivial rfl <| .cons trivial rfl <| .cons trivial rfl <|
    .cons trivial rfl <| .cons trivial rfl <| .cons trivial rfl <| .cons trivial rfl <|
    .cons (fun seq _ _ => stored seq) rfl <| .cons (fun seq _ _ => stored seq) rfl <|
    .cons trivial rfl <| .cons trivial rfl trivial

/-- The first chunk is fanned out before the watcher listens and flushed after the
history was read. -/
def overlooked : List Event :=
  [.ingest (.start 7 ⟨"alice".toList, "bash".toList, 80, 24, []⟩), .ingest .stored,
    .ingest .locked, .ingest (.chunk ⟨1, [104, 105], 5⟩), .channel, .subscribe, .page,
    .ingest .closed, .ingest .stored, .ingest .stored, .ingest .locked]

/-- Of the one chunk nothing is sent, and nothing is left to read. -/
theorem not_sentOnce_overlooked :
    ∃ state listening,
      run (step Codecs.hello .grpc 7) (start Backend.empty (.ok (1, none))) overlooked =
        some state ∧
      state.phase = .relaying 0 ∧
      state.ingest.backend.hub.receivers[0]? = some listening ∧
      listening.lagged = false ∧
      chunksOf overlooked = [⟨1, [104, 105], 5⟩] ∧
      state.sent ++ listening.unread.map (live Codecs.hello .grpc) = [] ∧
      ¬ SentOnce Codecs.hello .grpc (chunksOf overlooked)
        (state.sent ++ listening.unread.map (live Codecs.hello .grpc)) := by
  refine ⟨_, _, rfl, rfl, rfl, rfl, rfl, rfl, ?_⟩
  rintro ⟨numbered, -⟩
  cases numbered

end Runs

end SessionWatch

end Hermione
