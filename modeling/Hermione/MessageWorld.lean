import Hermione.EventRuns
import Hermione.Hub
import Hermione.Messages

/-!
# The message server

Broadcasts being posted, sockets being caught up and tailing, teachers asking for
snapshots and inboxes being polled, all at once.  Everything a task waits for
between two steps is a point at which any other may act.
-/

namespace Hermione

/-- A control frame, with the slot it was published for on the record. -/
structure Asked where
  slot : Slot
  control : Control
  deriving DecidableEq

inductive SocketFrame where
  | message (message : MessageOut)
  | control (asked : Asked)
  deriving DecidableEq

/-- A frame that was sent to a listener, or answered to one. -/
structure Delivery where
  course : Uuid
  student : Option Student
  frame : SocketFrame
  deriving DecidableEq

/-- How far a broadcast is. -/
inductive Posting where
  | idle
  /-- Its transaction is open, with these rows inserted. -/
  | inserting (course : Uuid) (text : Str) (now : Int) (todo : List Audience)
      (rows : List MessageRow) (sent : List MessageOut)
  /-- It is committed, and its messages go out one by one. -/
  | publishing (course : Uuid) (todo : List MessageOut) (publish : Publishing)
      (answer : Option Int × Nat)
  | answered (response : Except ApiError (Option Int × Nat))

/-- How far a socket is. -/
inductive SocketPhase where
  | unopened
  | querying
  | catchingUp (messages : List MessageOut)
  | arriving
  /-- It was handed the course's sender and has yet to listen. -/
  | handed (sender : Nat)
  | arrivingControl (messages : Nat)
  | handedControl (messages sender : Nat)
  | tailing (messages : Nat) (control : Option Nat)
  | gone
  deriving DecidableEq

/-- A socket, for its listener, and what is on its way to the other end. -/
structure Socket where
  course : Uuid
  student : Option Student
  since : Option Int
  phase : SocketPhase
  wire : List SocketFrame

/-- The capacities of the two hubs. -/
def MSG_HUB_CAP : Nat :=
  256

def CTRL_HUB_CAP : Nat :=
  16

/-- The server, with everything it ever sent on the record. -/
structure MessageWorld where
  access : Access
  table : List MessageRow
  nextId : Int
  postings : Nat → Posting
  asks : Nat → Option (Slot × Publishing)
  msgHub : Hub Uuid MessageOut
  ctrlHub : Hub Slot Asked
  sockets : Nat → Socket
  delivered : List Delivery

namespace MessageWorld

def unopened : Socket :=
  { course := 0, student := none, since := none, phase := .unopened, wire := [] }

/-- A server on a table of messages, with identifiers left above them. -/
def initial (access : Access) (table : List MessageRow) (nextId : Int) : MessageWorld :=
  { access
    table
    nextId
    postings := fun _ => .idle
    asks := fun _ => none
    msgHub := Hub.empty
    ctrlHub := Hub.empty
    sockets := fun _ => unopened
    delivered := [] }

inductive Event where
  /-- Courses, members, sessions or the configuration change. -/
  | configure (access : Access)
  | post (task : Nat) (request : BroadcastRequest) (ctx : AuthCtx) (now : Int)
  | insert (task : Nat)
  | commit (task : Nat)
  | rollBack (task : Nat)
  | publish (task : Nat)
  /-- A teacher's view asks a student's editor for its file. -/
  | ask (task : Nat) (slot : Slot)
  | publishAsk (task : Nat)
  | connect (sock : Nat) (now : Int) (request : WsQuery) (headers : Headers)
  | query (sock : Nat)
  | queryFailed (sock : Nat)
  /-- The next missed message is sent. -/
  | pass (sock : Nat)
  /-- The next step of listening on the hubs. -/
  | advance (sock : Nat)
  | relay (sock : Nat)
  | relayControl (sock : Nat)
  /-- The other end reads a frame. -/
  | take (sock : Nat)
  | close (sock : Nat)
  | poll (now : Int) (request : PollQuery) (headers : Headers)

def withSocket (world : MessageWorld) (sock : Nat) (socket : Socket) : MessageWorld :=
  { world with sockets := Function.update world.sockets sock socket }

def withPosting (world : MessageWorld) (task : Nat) (posting : Posting) : MessageWorld :=
  { world with postings := Function.update world.postings task posting }

/-- A broadcast up to its transaction. -/
def post (access : Access) (request : BroadcastRequest) (ctx : AuthCtx) (now : Int) :
    Posting :=
  match broadcastOf request with
  | .error error => .answered (.error error)
  | .ok (text, audiences) =>
      match resolveCourse access ctx request.course with
      | .error error => .answered (.error error)
      | .ok course => .inserting course text now audiences [] []

/-- The row and the message of one audience. -/
def rowOf (course : Uuid) (text : Str) (now id : Int) (audience : Audience) : MessageRow :=
  { id, courseId := course, body := text, student := audience.stored, createdAtUnixMs := now }

def outOf (row : MessageRow) (audience : Audience) : MessageOut :=
  { id := row.id, body := row.body, createdAtUnixMs := row.createdAtUnixMs, audience }

/-- A broadcast whose next message is up, or that has none left. -/
def nextPublish (course : Uuid) (todo : List MessageOut) (answer : Option Int × Nat) :
    Posting :=
  match todo with
  | [] => .answered (.ok answer)
  | _ => .publishing course todo .looking answer

/-- A frame goes out on a socket. -/
def send (world : MessageWorld) (sock : Nat) (phase : SocketPhase) (frame : SocketFrame) :
    MessageWorld :=
  let socket := world.sockets sock
  { world.withSocket sock { socket with phase, wire := socket.wire ++ [frame] } with
    delivered := world.delivered ++ [⟨socket.course, socket.student, frame⟩] }

/-- The receivers a socket holds are dropped with it. -/
def hangUp (world : MessageWorld) (phase : SocketPhase) : MessageWorld :=
  match phase with
  | .arrivingControl messages | .handedControl messages _ | .tailing messages none =>
      { world with msgHub := world.msgHub.dropReceiver messages }
  | .tailing messages (some control) =>
      { world with
        msgHub := world.msgHub.dropReceiver messages
        ctrlHub := world.ctrlHub.dropReceiver control }
  | _ => world

/-- A socket that listens on the course goes on to its control frames, if it
belongs to a student. -/
def afterListen (socket : Socket) (messages : Nat) : SocketPhase :=
  match socket.student with
  | some _ => .arrivingControl messages
  | none => .tailing messages none

/-- The next step of listening. -/
def advance (world : MessageWorld) (sock : Nat) : Option MessageWorld :=
  let socket := world.sockets sock
  match socket.phase, socket.student with
  | .arriving, _ =>
      let (hub, sender) := world.msgHub.channel socket.course
      some { world.withSocket sock { socket with phase := .handed sender } with msgHub := hub }
  | .handed sender, _ =>
      let (hub, messages) := world.msgHub.listen sender
      some
        { world.withSocket sock { socket with phase := afterListen socket messages } with
          msgHub := hub }
  | .arrivingControl messages, some student =>
      let (hub, sender) := world.ctrlHub.channel ⟨socket.course, student⟩
      some
        { world.withSocket sock { socket with phase := .handedControl messages sender } with
          ctrlHub := hub }
  | .handedControl messages sender, _ =>
      let (hub, control) := world.ctrlHub.listen sender
      some
        { world.withSocket sock { socket with phase := .tailing messages (some control) } with
          ctrlHub := hub }
  | _, _ => none

variable (jwt : JsonWebToken)

def step (world : MessageWorld) : Event → Option MessageWorld
  | .configure access => some { world with access }
  | .post task request ctx now =>
      match world.postings task with
      | .idle => some (world.withPosting task (post world.access request ctx now))
      | _ => none
  | .insert task =>
      match world.postings task with
      | .inserting course text now (audience :: todo) rows sent =>
          let row := rowOf course text now world.nextId audience
          some
            { world.withPosting task
                (.inserting course text now todo (rows ++ [row])
                  (sent ++ [outOf row audience])) with
              nextId := world.nextId + 1 }
      | _ => none
  | .commit task =>
      match world.postings task with
      | .inserting course _ _ [] rows sent =>
          some
            { world.withPosting task
                (nextPublish course sent ((sent.head?).map MessageOut.id, sent.length)) with
              table := world.table ++ rows }
      | _ => none
  | .rollBack task =>
      match world.postings task with
      | .inserting _ _ _ _ _ _ => some (world.withPosting task (.answered (.error .internal)))
      | _ => none
  | .publish task =>
      match world.postings task with
      | .publishing course (message :: todo) publish answer =>
          let (hub, next) := world.msgHub.publish MSG_HUB_CAP course message publish
          some
            { world.withPosting task
                (match next with
                | some publish => .publishing course (message :: todo) publish answer
                | none => nextPublish course todo answer) with
              msgHub := hub }
      | _ => none
  | .ask task slot =>
      match world.asks task with
      | none => some { world with asks := Function.update world.asks task (some (slot, .looking)) }
      | some _ => none
  | .publishAsk task =>
      match world.asks task with
      | some (slot, publish) =>
          let (hub, next) :=
            world.ctrlHub.publish CTRL_HUB_CAP slot ⟨slot, .snapshotRequest⟩ publish
          some
            { world with
              asks := Function.update world.asks task (next.map fun publish => (slot, publish))
              ctrlHub := hub }
      | none => none
  | .connect sock now request headers =>
      match (world.sockets sock).phase, listener world.access jwt now request headers with
      | .unopened, .ok (course, student) =>
          some (world.withSocket sock
            { course, student, since := request.since
              phase := if request.since.isSome then .querying else .arriving
              wire := [] })
      | _, _ => none
  | .query sock =>
      let socket := world.sockets sock
      match socket.phase, socket.since with
      | .querying, some since =>
          let rows := missed world.table socket.course since socket.student
          some (world.withSocket sock { socket with phase := .catchingUp (shown rows) })
      | _, _ => none
  | .queryFailed sock =>
      let socket := world.sockets sock
      match socket.phase with
      | .querying => some (world.withSocket sock { socket with phase := .arriving })
      | _ => none
  | .pass sock =>
      let socket := world.sockets sock
      match socket.phase with
      | .catchingUp (message :: rest) =>
          some (world.send sock (.catchingUp rest) (.message message))
      | .catchingUp [] => some (world.withSocket sock { socket with phase := .arriving })
      | _ => none
  | .advance sock => world.advance sock
  | .relay sock =>
      let socket := world.sockets sock
      match socket.phase with
      | .tailing messages _ =>
          (world.msgHub.recv messages).map fun (message, hub) =>
            -- The course's channel carries every message for the course.
            if message.audience.reaches socket.student then
              { world.send sock socket.phase (.message message) with msgHub := hub }
            else { world with msgHub := hub }
      | _ => none
  | .relayControl sock =>
      let socket := world.sockets sock
      match socket.phase with
      | .tailing _ (some control) =>
          (world.ctrlHub.recv control).map fun (asked, hub) =>
            { world.send sock socket.phase (.control asked) with ctrlHub := hub }
      | _ => none
  | .take sock =>
      let socket := world.sockets sock
      match socket.wire with
      | _ :: wire => some (world.withSocket sock { socket with wire })
      | [] => none
  | .close sock =>
      let socket := world.sockets sock
      match socket.phase with
      | .unopened | .gone => none
      | phase => some ((world.hangUp phase).withSocket sock { socket with phase := .gone })
  | .poll now request headers =>
      match inboxListener world.access jwt now request headers with
      | .ok (course, student) =>
          some
            { world with
              delivered := world.delivered ++
                (shown (missed world.table course (request.since.getD 0) student)).map
                  fun message => ⟨course, student, .message message⟩ }
      | .error _ => none

/-- What a step can do, guards included. -/
inductive Moves (world : MessageWorld) : Event → MessageWorld → Prop where
  | configure (access : Access) : Moves world (.configure access) { world with access }
  | post (task : Nat) (request : BroadcastRequest) (ctx : AuthCtx) (now : Int)
      (idle : world.postings task = .idle) :
      Moves world (.post task request ctx now)
        (world.withPosting task (MessageWorld.post world.access request ctx now))
  | insert (task : Nat) (course : Uuid) (text : Str) (now : Int) (audience : Audience)
      (todo : List Audience) (rows : List MessageRow) (sent : List MessageOut)
      (inserting :
        world.postings task = .inserting course text now (audience :: todo) rows sent) :
      Moves world (.insert task)
        { world.withPosting task
            (.inserting course text now todo
              (rows ++ [rowOf course text now world.nextId audience])
              (sent ++ [outOf (rowOf course text now world.nextId audience) audience])) with
          nextId := world.nextId + 1 }
  | commit (task : Nat) (course : Uuid) (text : Str) (now : Int) (rows : List MessageRow)
      (sent : List MessageOut)
      (inserting : world.postings task = .inserting course text now [] rows sent) :
      Moves world (.commit task)
        { world.withPosting task
            (nextPublish course sent ((sent.head?).map MessageOut.id, sent.length)) with
          table := world.table ++ rows }
  | rollBack (task : Nat) (course : Uuid) (text : Str) (now : Int) (todo : List Audience)
      (rows : List MessageRow) (sent : List MessageOut)
      (inserting : world.postings task = .inserting course text now todo rows sent) :
      Moves world (.rollBack task) (world.withPosting task (.answered (.error .internal)))
  | lookUp (task : Nat) (course : Uuid) (message : MessageOut) (todo : List MessageOut)
      (answer : Option Int × Nat) (sender : Nat)
      (publishing : world.postings task = .publishing course (message :: todo) .looking answer)
      (bound : world.msgHub.channels course = some sender) :
      Moves world (.publish task)
        (world.withPosting task (.publishing course (message :: todo) (.holding sender) answer))
  | nobody (task : Nat) (course : Uuid) (message : MessageOut) (todo : List MessageOut)
      (answer : Option Int × Nat)
      (publishing : world.postings task = .publishing course (message :: todo) .looking answer)
      (unbound : world.msgHub.channels course = none) :
      Moves world (.publish task) (world.withPosting task (nextPublish course todo answer))
  | publish (task : Nat) (course : Uuid) (message : MessageOut) (todo : List MessageOut)
      (answer : Option Int × Nat) (sender : Nat)
      (publishing :
        world.postings task = .publishing course (message :: todo) (.holding sender) answer) :
      Moves world (.publish task)
        { world.withPosting task
            (if (world.msgHub.send MSG_HUB_CAP sender message).2 then
              nextPublish course todo answer
            else .publishing course (message :: todo) .forgetting answer) with
          msgHub := (world.msgHub.send MSG_HUB_CAP sender message).1 }
  | forget (task : Nat) (course : Uuid) (message : MessageOut) (todo : List MessageOut)
      (answer : Option Int × Nat)
      (publishing :
        world.postings task = .publishing course (message :: todo) .forgetting answer) :
      Moves world (.publish task)
        { world.withPosting task (nextPublish course todo answer) with
          msgHub := world.msgHub.remove course }
  | ask (task : Nat) (slot : Slot) (free : world.asks task = none) :
      Moves world (.ask task slot)
        { world with asks := Function.update world.asks task (some (slot, .looking)) }
  | publishAsk (task : Nat) (slot : Slot) (publish : Publishing)
      (asking : world.asks task = some (slot, publish)) :
      Moves world (.publishAsk task)
        { world with
          asks := Function.update world.asks task
            ((world.ctrlHub.publish CTRL_HUB_CAP slot ⟨slot, .snapshotRequest⟩ publish).2.map
              fun publish => (slot, publish))
          ctrlHub :=
            (world.ctrlHub.publish CTRL_HUB_CAP slot ⟨slot, .snapshotRequest⟩ publish).1 }
  | connect (sock : Nat) (now : Int) (request : WsQuery) (headers : Headers) (course : Uuid)
      (student : Option Student) (unopened : (world.sockets sock).phase = .unopened)
      (accepted : listener world.access jwt now request headers = .ok (course, student)) :
      Moves world (.connect sock now request headers)
        (world.withSocket sock
          { course, student, since := request.since
            phase := if request.since.isSome then .querying else .arriving
            wire := [] })
  | query (sock : Nat) (since : Int) (querying : (world.sockets sock).phase = .querying)
      (wanted : (world.sockets sock).since = some since) :
      Moves world (.query sock)
        (world.withSocket sock
          { world.sockets sock with
            phase := .catchingUp (shown (missed world.table (world.sockets sock).course since
              (world.sockets sock).student)) })
  | queryFailed (sock : Nat) (querying : (world.sockets sock).phase = .querying) :
      Moves world (.queryFailed sock)
        (world.withSocket sock { world.sockets sock with phase := .arriving })
  | pass (sock : Nat) (message : MessageOut) (rest : List MessageOut)
      (catchingUp : (world.sockets sock).phase = .catchingUp (message :: rest)) :
      Moves world (.pass sock) (world.send sock (.catchingUp rest) (.message message))
  | caughtUp (sock : Nat) (catchingUp : (world.sockets sock).phase = .catchingUp []) :
      Moves world (.pass sock)
        (world.withSocket sock { world.sockets sock with phase := .arriving })
  | channel (sock : Nat) (arriving : (world.sockets sock).phase = .arriving) :
      Moves world (.advance sock)
        { world.withSocket sock
            { world.sockets sock with
              phase := .handed (world.msgHub.channel (world.sockets sock).course).2 } with
          msgHub := (world.msgHub.channel (world.sockets sock).course).1 }
  | listen (sock sender : Nat) (handed : (world.sockets sock).phase = .handed sender) :
      Moves world (.advance sock)
        { world.withSocket sock
            { world.sockets sock with
              phase := afterListen (world.sockets sock) world.msgHub.receivers.length } with
          msgHub := (world.msgHub.listen sender).1 }
  | channelControl (sock messages : Nat) (student : Student)
      (arriving : (world.sockets sock).phase = .arrivingControl messages)
      (belongs : (world.sockets sock).student = some student) :
      Moves world (.advance sock)
        { world.withSocket sock
            { world.sockets sock with
              phase := .handedControl messages
                (world.ctrlHub.channel ⟨(world.sockets sock).course, student⟩).2 } with
          ctrlHub := (world.ctrlHub.channel ⟨(world.sockets sock).course, student⟩).1 }
  | listenControl (sock messages sender : Nat)
      (handed : (world.sockets sock).phase = .handedControl messages sender) :
      Moves world (.advance sock)
        { world.withSocket sock
            { world.sockets sock with
              phase := .tailing messages (some world.ctrlHub.receivers.length) } with
          ctrlHub := (world.ctrlHub.listen sender).1 }
  | relay (sock messages : Nat) (control : Option Nat) (message : MessageOut)
      (hub : Hub Uuid MessageOut)
      (tailing : (world.sockets sock).phase = .tailing messages control)
      (received : world.msgHub.recv messages = some (message, hub))
      (meant : message.audience.reaches (world.sockets sock).student = true) :
      Moves world (.relay sock)
        { world.send sock (world.sockets sock).phase (.message message) with msgHub := hub }
  | passOver (sock messages : Nat) (control : Option Nat) (message : MessageOut)
      (hub : Hub Uuid MessageOut)
      (tailing : (world.sockets sock).phase = .tailing messages control)
      (received : world.msgHub.recv messages = some (message, hub))
      (others : message.audience.reaches (world.sockets sock).student = false) :
      Moves world (.relay sock) { world with msgHub := hub }
  | relayControl (sock messages control : Nat) (asked : Asked) (hub : Hub Slot Asked)
      (tailing : (world.sockets sock).phase = .tailing messages (some control))
      (received : world.ctrlHub.recv control = some (asked, hub)) :
      Moves world (.relayControl sock)
        { world.send sock (world.sockets sock).phase (.control asked) with ctrlHub := hub }
  | take (sock : Nat) (frame : SocketFrame) (wire : List SocketFrame)
      (waiting : (world.sockets sock).wire = frame :: wire) :
      Moves world (.take sock) (world.withSocket sock { world.sockets sock with wire })
  | close (sock : Nat) (opened : (world.sockets sock).phase ≠ .unopened)
      (there : (world.sockets sock).phase ≠ .gone) :
      Moves world (.close sock)
        ((world.hangUp (world.sockets sock).phase).withSocket sock
          { world.sockets sock with phase := .gone })
  | poll (now : Int) (request : PollQuery) (headers : Headers) (course : Uuid)
      (student : Option Student)
      (accepted : inboxListener world.access jwt now request headers = .ok (course, student)) :
      Moves world (.poll now request headers)
        { world with
          delivered := world.delivered ++
            (shown (missed world.table course (request.since.getD 0) student)).map
              fun message => ⟨course, student, .message message⟩ }

variable {jwt : JsonWebToken} {world next : MessageWorld} {event : Event}

theorem moves_of_publish {task : Nat} (stepped : step jwt world (.publish task) = some next) :
    Moves jwt world (.publish task) next := by
  simp only [step] at stepped
  split at stepped
  · rename_i course message todo publish answer publishing
    obtain rfl := Option.some.inj stepped
    cases publish with
    | looking =>
        cases bound : world.msgHub.channels course with
        | none =>
            simp only [Hub.publish, bound, Option.map_none]
            exact .nobody task course message todo answer publishing bound
        | some sender =>
            simp only [Hub.publish, bound, Option.map_some]
            exact .lookUp task course message todo answer sender publishing bound
    | holding sender =>
        have moves : Moves jwt world (.publish task) _ :=
          .publish task course message todo answer sender publishing
        cases heard : (world.msgHub.send MSG_HUB_CAP sender message).2 with
        | true =>
            simp only [heard, if_true] at moves
            simpa only [Hub.publish, heard, if_true] using moves
        | false =>
            simp only [heard, Bool.false_eq_true, if_false] at moves
            simpa only [Hub.publish, heard, Bool.false_eq_true, if_false] using moves
    | forgetting => exact .forget task course message todo answer publishing
  · simp at stepped

theorem moves_of_advance {sock : Nat} (stepped : advance world sock = some next) :
    Moves jwt world (.advance sock) next := by
  unfold advance at stepped
  dsimp only at stepped
  split at stepped
  · rename_i arriving
    obtain rfl := Option.some.inj stepped
    exact .channel sock arriving
  · rename_i sender handed
    obtain rfl := Option.some.inj stepped
    exact .listen sock sender handed
  · rename_i messages student arriving belongs
    obtain rfl := Option.some.inj stepped
    exact .channelControl sock messages student arriving belongs
  · rename_i messages sender handed
    obtain rfl := Option.some.inj stepped
    exact .listenControl sock messages sender handed
  · simp at stepped

theorem moves_of_step (stepped : step jwt world event = some next) :
    Moves jwt world event next := by
  cases event with
  | publish task => exact moves_of_publish stepped
  | advance sock => exact moves_of_advance stepped
  | configure access =>
      obtain rfl := Option.some.inj stepped
      exact .configure access
  | post task request ctx now =>
      simp only [step] at stepped
      split at stepped
      · rename_i idle
        obtain rfl := Option.some.inj stepped
        exact .post task request ctx now idle
      · simp at stepped
  | insert task =>
      simp only [step] at stepped
      split at stepped
      · rename_i course text now audience todo rows sent inserting
        obtain rfl := Option.some.inj stepped
        exact .insert task course text now audience todo rows sent inserting
      · simp at stepped
  | commit task =>
      simp only [step] at stepped
      split at stepped
      · rename_i course text now rows sent inserting
        obtain rfl := Option.some.inj stepped
        exact .commit task course text now rows sent inserting
      · simp at stepped
  | rollBack task =>
      simp only [step] at stepped
      split at stepped
      · rename_i course text now todo rows sent inserting
        obtain rfl := Option.some.inj stepped
        exact .rollBack task course text now todo rows sent inserting
      · simp at stepped
  | ask task slot =>
      simp only [step] at stepped
      split at stepped
      · rename_i free
        obtain rfl := Option.some.inj stepped
        exact .ask task slot free
      · simp at stepped
  | publishAsk task =>
      simp only [step] at stepped
      split at stepped
      · rename_i slot publish asking
        obtain rfl := Option.some.inj stepped
        exact .publishAsk task slot publish asking
      · simp at stepped
  | connect sock now request headers =>
      simp only [step] at stepped
      split at stepped
      · rename_i course student unopened accepted
        obtain rfl := Option.some.inj stepped
        exact .connect sock now request headers course student unopened accepted
      · simp at stepped
  | query sock =>
      simp only [step] at stepped
      split at stepped
      · rename_i since querying wanted
        obtain rfl := Option.some.inj stepped
        exact .query sock since querying wanted
      · simp at stepped
  | queryFailed sock =>
      simp only [step] at stepped
      split at stepped
      · rename_i querying
        obtain rfl := Option.some.inj stepped
        exact .queryFailed sock querying
      · simp at stepped
  | pass sock =>
      simp only [step] at stepped
      split at stepped
      · rename_i message rest catchingUp
        obtain rfl := Option.some.inj stepped
        exact .pass sock message rest catchingUp
      · rename_i catchingUp
        obtain rfl := Option.some.inj stepped
        exact .caughtUp sock catchingUp
      · simp at stepped
  | relay sock =>
      simp only [step] at stepped
      split at stepped
      · rename_i messages control tailing
        obtain ⟨⟨message, hub⟩, received, rfl⟩ := Option.map_eq_some_iff.mp stepped
        by_cases meant : message.audience.reaches (world.sockets sock).student = true
        · rw [if_pos meant]
          exact .relay sock messages control message hub tailing received meant
        · rw [if_neg meant]
          exact .passOver sock messages control message hub tailing received
            (Bool.not_eq_true _ ▸ meant)
      · simp at stepped
  | relayControl sock =>
      simp only [step] at stepped
      split at stepped
      · rename_i messages control tailing
        obtain ⟨⟨asked, hub⟩, received, rfl⟩ := Option.map_eq_some_iff.mp stepped
        exact .relayControl sock messages control asked hub tailing received
      · simp at stepped
  | take sock =>
      simp only [step] at stepped
      split at stepped
      · rename_i frame wire waiting
        obtain rfl := Option.some.inj stepped
        exact .take sock frame wire waiting
      · simp at stepped
  | close sock =>
      simp only [step] at stepped
      split at stepped
      · simp at stepped
      · simp at stepped
      · rename_i opened there
        obtain rfl := Option.some.inj stepped
        exact .close sock opened there
  | poll now request headers =>
      simp only [step] at stepped
      split at stepped
      · rename_i course student accepted
        obtain rfl := Option.some.inj stepped
        exact .poll now request headers course student accepted
      · simp at stepped

end MessageWorld

end Hermione
