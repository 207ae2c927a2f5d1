import Hermione.MessageWorld

/-!
# Messages reach those they are for

Whichever way a message comes to a listener, live, caught up or polled, it is the
course's and for everyone or for the listener's student, and a control frame is
for exactly the socket's slot.
-/

namespace Hermione

namespace MessageWorld

/-- A message is a row of the course. -/
def Fits (table : List MessageRow) (course : Uuid) (message : MessageOut) : Prop :=
  ∃ row ∈ table, row.courseId = course ∧ MessageOut.tryFrom row = .ok message

def Addressed (slot : Slot) (asked : Asked) : Prop :=
  asked.slot = slot

/-- A delivery that the listener was meant to get. -/
def Delivery.Right (table : List MessageRow) (delivery : Delivery) : Prop :=
  match delivery.frame with
  | .message message =>
      Fits table delivery.course message ∧
        message.audience.reaches delivery.student = true
  | .control asked =>
      ∃ student, delivery.student = some student ∧ asked.slot = ⟨delivery.course, student⟩

def Posting.Sound (world : MessageWorld) : Posting → Prop
  | .inserting course _ _ _ rows sent =>
      (∀ row ∈ rows, row.courseId = course) ∧
        ∀ message ∈ sent, ∃ row ∈ rows, MessageOut.tryFrom row = .ok message
  | .publishing course todo publish _ =>
      (∀ message ∈ todo, Fits world.table course message) ∧
        world.msgHub.Knows course publish
  | _ => True

def Socket.Sound (world : MessageWorld) (socket : Socket) : Prop :=
  match socket.phase with
  | .catchingUp messages =>
      ∀ message ∈ messages, Fits world.table socket.course message ∧
        message.audience.reaches socket.student = true
  | .handed sender => world.msgHub.keys[sender]? = some socket.course
  | .arrivingControl messages => world.msgHub.Hears messages socket.course
  | .handedControl messages sender =>
      world.msgHub.Hears messages socket.course ∧
        ∃ student, socket.student = some student ∧
          world.ctrlHub.keys[sender]? = some ⟨socket.course, student⟩
  | .tailing messages control =>
      world.msgHub.Hears messages socket.course ∧
        ∀ receiver, control = some receiver →
          ∃ student, socket.student = some student ∧
            world.ctrlHub.Hears receiver ⟨socket.course, student⟩
  | _ => True

/-- Everything on its way is on its way to those it is for. -/
structure Routed (world : MessageWorld) : Prop where
  messages : world.msgHub.Carries (Fits world.table)
  controls : world.ctrlHub.Carries Addressed
  postings : ∀ task, Posting.Sound world (world.postings task)
  asks : ∀ task slot publish, world.asks task = some (slot, publish) →
    world.ctrlHub.Knows slot publish
  sockets : ∀ sock, Socket.Sound world (world.sockets sock)
  delivered : ∀ delivery ∈ world.delivered, Delivery.Right world.table delivery

/-! ## What stays right as the server goes on -/

/-- The table and the hubs only ever grow. -/
structure Grows (world later : MessageWorld) : Prop where
  table : world.table ⊆ later.table
  msgHub : world.msgHub.Extends later.msgHub
  ctrlHub : world.ctrlHub.Extends later.ctrlHub

section Grows

variable {world later : MessageWorld}

theorem Fits.grow {table more : List MessageRow} {course : Uuid} {message : MessageOut}
    (fits : Fits table course message) (grown : table ⊆ more) : Fits more course message := by
  obtain ⟨row, listed, belongs, made⟩ := fits
  exact ⟨row, grown listed, belongs, made⟩

theorem Delivery.Right.grow {table more : List MessageRow} {delivery : Delivery}
    (right : Delivery.Right table delivery) (grown : table ⊆ more) :
    Delivery.Right more delivery := by
  unfold Delivery.Right at right ⊢
  cases frame : delivery.frame with
  | message message =>
      simp only [frame] at right ⊢
      exact ⟨right.1.grow grown, right.2⟩
  | control asked => simpa only [frame] using right

theorem Posting.Sound.grow {posting : Posting} (sound : Posting.Sound world posting)
    (grown : Grows world later) : Posting.Sound later posting := by
  cases posting with
  | publishing course todo publish answer =>
      exact ⟨fun message member => (sound.1 message member).grow grown.table,
        sound.2.extend grown.msgHub⟩
  | idle | inserting | answered => exact sound

theorem Socket.Sound.grow {socket : Socket} (sound : Socket.Sound world socket)
    (grown : Grows world later) : Socket.Sound later socket := by
  unfold Socket.Sound at sound ⊢
  cases phase : socket.phase with
  | catchingUp messages =>
      simp only [phase] at sound ⊢
      exact fun message member =>
        ⟨(sound message member).1.grow grown.table, (sound message member).2⟩
  | handed sender =>
      simp only [phase] at sound ⊢
      exact grown.msgHub.keys sender _ sound
  | arrivingControl messages =>
      simp only [phase] at sound ⊢
      exact sound.extend grown.msgHub
  | handedControl messages sender =>
      simp only [phase] at sound ⊢
      obtain ⟨hears, student, belongs, made⟩ := sound
      exact ⟨hears.extend grown.msgHub, student, belongs, grown.ctrlHub.keys sender _ made⟩
  | tailing messages control =>
      simp only [phase] at sound ⊢
      refine ⟨sound.1.extend grown.msgHub, fun receiver held => ?_⟩
      obtain ⟨student, belongs, hears⟩ := sound.2 receiver held
      exact ⟨student, belongs, hears.extend grown.ctrlHub⟩
  | unopened | querying | arriving | gone => trivial

end Grows

/-- A world that grew, with a socket and the record changed. -/
structure Changes (world later : MessageWorld) (sock : Nat) (socket : Socket) : Prop where
  grows : Grows world later
  messages : later.msgHub.Carries (Fits later.table)
  controls : later.ctrlHub.Carries Addressed
  postings : later.postings = world.postings
  asks : later.asks = world.asks
  sockets : later.sockets = Function.update world.sockets sock socket

theorem Routed.changes {world later : MessageWorld} {sock : Nat} {socket : Socket}
    (routed : Routed world) (changes : Changes world later sock socket)
    (sound : Socket.Sound later socket)
    (delivered : ∀ delivery ∈ later.delivered, Delivery.Right later.table delivery) :
    Routed later := by
  refine ⟨changes.messages, changes.controls, ?_, ?_, ?_, delivered⟩
  · intro task
    rw [changes.postings]
    exact (routed.postings task).grow changes.grows
  · intro task slot publish asking
    rw [changes.asks] at asking
    exact (routed.asks task slot publish asking).extend changes.grows.ctrlHub
  · intro other
    rw [changes.sockets, Function.update_apply]
    split
    · exact sound
    · exact (routed.sockets other).grow changes.grows

/-- A world that grew, with a broadcast changed. -/
theorem Routed.posted {world later : MessageWorld} {task : Nat} {posting : Posting}
    (routed : Routed world) (grows : Grows world later)
    (messages : later.msgHub.Carries (Fits later.table))
    (same : later.ctrlHub = world.ctrlHub ∧ later.asks = world.asks ∧
      later.sockets = world.sockets ∧ later.delivered = world.delivered)
    (postings : later.postings = Function.update world.postings task posting)
    (sound : Posting.Sound later posting) :
    Routed later := by
  obtain ⟨ctrlHub, asks, sockets, delivered⟩ := same
  refine ⟨messages, ctrlHub ▸ routed.controls, ?_, ?_, ?_, ?_⟩
  · intro other
    rw [postings, Function.update_apply]
    split
    · exact sound
    · exact (routed.postings other).grow grows
  · intro other slot publish asking
    rw [asks] at asking
    exact (routed.asks other slot publish asking).extend grows.ctrlHub
  · intro sock
    rw [sockets]
    exact (routed.sockets sock).grow grows
  · intro delivery member
    rw [delivered] at member
    exact (routed.delivered delivery member).grow grows.table

theorem sound_nextPublish {world : MessageWorld} {course : Uuid} {todo : List MessageOut}
    (fits : ∀ message ∈ todo, Fits world.table course message) (answer : Option Int × Nat) :
    Posting.Sound world (nextPublish course todo answer) := by
  cases todo with
  | nil => trivial
  | cons message rest => exact ⟨fits, fun sender holding => by simp at holding⟩

theorem sound_post (world : MessageWorld) (request : BroadcastRequest) (ctx : AuthCtx)
    (now : Int) : Posting.Sound world (post world.access request ctx now) := by
  unfold post
  split
  · trivial
  · split
    · trivial
    · simp [Posting.Sound]

/-- What is put on the wire of a socket is right, if the frame is. -/
theorem delivered_send {world : MessageWorld} (routed : Routed world) {sock : Nat}
    {frame : SocketFrame}
    (right : Delivery.Right world.table
      ⟨(world.sockets sock).course, (world.sockets sock).student, frame⟩) :
    ∀ delivery ∈ world.delivered ++
        [⟨(world.sockets sock).course, (world.sockets sock).student, frame⟩],
      Delivery.Right world.table delivery := by
  intro delivery member
  rcases List.mem_append.mp member with before | new
  · exact routed.delivered delivery before
  · rw [List.mem_singleton.mp new]
    exact right

section Steps

variable {jwt : JsonWebToken} {world next : MessageWorld} {event : Event}

/-- A message caught up on or polled is right. -/
theorem right_of_missed {table : List MessageRow} {course : Uuid} {since : Int}
    {listener : Option Student} {message : MessageOut}
    (listed : message ∈ shown (missed table course since listener)) :
    Fits table course message ∧ message.audience.reaches listener = true := by
  obtain ⟨row, selected, made⟩ := mem_shown.mp listed
  obtain ⟨member, belongs, -, addressed⟩ := mem_missed selected
  rw [addressedTo_iff_reaches made] at addressed
  exact ⟨⟨row, member, belongs, made⟩, addressed⟩

/-- A broadcast goes on. -/
theorem Routed.broadcast (routed : Routed world)
    (moves : Moves jwt world event next) (task : Nat)
    (about : event = .insert task ∨ event = .commit task ∨ event = .rollBack task ∨
      event = .publish task) :
    Routed next := by
  cases moves with
  | insert task course text now audience todo rows sent inserting =>
      have sound := routed.postings task
      rw [inserting] at sound
      refine routed.posted
        ⟨fun _ member => member, .refl _, .refl _⟩ routed.messages ⟨rfl, rfl, rfl, rfl⟩ rfl ?_
      constructor
      · intro row member
        rcases List.mem_append.mp member with before | new
        · exact sound.1 row before
        · rw [List.mem_singleton.mp new]
          rfl
      · intro message member
        rcases List.mem_append.mp member with before | new
        · obtain ⟨row, listed, made⟩ := sound.2 message before
          exact ⟨row, List.mem_append_left _ listed, made⟩
        · rw [List.mem_singleton.mp new]
          exact ⟨_, List.mem_append_right _ (List.mem_singleton_self _),
            tryFrom_eq_ok_iff.mpr ⟨rfl, rfl, rfl, rfl⟩⟩
  | commit task course text now rows sent inserting =>
      have sound := routed.postings task
      rw [inserting] at sound
      have more : world.table ⊆ world.table ++ rows := List.subset_append_left _ _
      refine routed.posted ⟨more, .refl _, .refl _⟩
        (routed.messages.mono fun _ _ fits => fits.grow more) ⟨rfl, rfl, rfl, rfl⟩ rfl ?_
      apply sound_nextPublish
      intro message member
      obtain ⟨row, listed, made⟩ := sound.2 message member
      exact ⟨row, List.mem_append_right _ listed, sound.1 row listed, made⟩
  | rollBack =>
      exact routed.posted ⟨fun _ member => member, .refl _, .refl _⟩ routed.messages
        ⟨rfl, rfl, rfl, rfl⟩ rfl trivial
  | lookUp task course message todo answer sender publishing bound =>
      have sound := routed.postings task
      rw [publishing] at sound
      refine routed.posted ⟨fun _ member => member, .refl _, .refl _⟩ routed.messages
        ⟨rfl, rfl, rfl, rfl⟩ rfl ⟨sound.1, ?_⟩
      intro held same
      obtain rfl := Publishing.holding.inj same
      exact world.msgHub.made course sender bound
  | nobody task course message todo answer publishing unbound =>
      have sound := routed.postings task
      rw [publishing] at sound
      refine routed.posted ⟨fun _ member => member, .refl _, .refl _⟩ routed.messages
        ⟨rfl, rfl, rfl, rfl⟩ rfl ?_
      exact sound_nextPublish (fun other member => sound.1 other (List.mem_cons_of_mem _ member)) _
  | publish task course message todo answer sender publishing =>
      have sound := routed.postings task
      rw [publishing] at sound
      have made := sound.2 sender rfl
      refine routed.posted ⟨fun _ member => member, Hub.extends_send _ _ _, .refl _⟩
        (routed.messages.send made (sound.1 message List.mem_cons_self))
        ⟨rfl, rfl, rfl, rfl⟩ rfl ?_
      split
      · exact sound_nextPublish
          (fun other member => sound.1 other (List.mem_cons_of_mem _ member)) _
      · exact ⟨sound.1, fun held same => by simp at same⟩
  | forget task course message todo answer publishing =>
      have sound := routed.postings task
      rw [publishing] at sound
      refine routed.posted ⟨fun _ member => member, Hub.extends_remove, .refl _⟩
        (routed.messages.remove course) ⟨rfl, rfl, rfl, rfl⟩ rfl ?_
      exact sound_nextPublish (fun other member => sound.1 other (List.mem_cons_of_mem _ member)) _
  | _ => simp at about

/-- A teacher's request for a snapshot goes on. -/
theorem Routed.asked {ctrlHub : Hub Slot Asked} {task : Nat}
    {asking : Option (Slot × Publishing)} (routed : Routed world)
    (grown : world.ctrlHub.Extends ctrlHub) (controls : ctrlHub.Carries Addressed)
    (knows : ∀ slot publish, asking = some (slot, publish) → ctrlHub.Knows slot publish) :
    Routed
      { world with asks := Function.update world.asks task asking, ctrlHub := ctrlHub } := by
  have grows : Grows world
      { world with asks := Function.update world.asks task asking, ctrlHub := ctrlHub } :=
    ⟨fun _ member => member, .refl _, grown⟩
  refine ⟨routed.messages, controls, ?_, ?_, ?_, routed.delivered⟩
  · intro other
    exact (routed.postings other).grow grows
  · intro other slot publish found
    dsimp only at found
    rw [Function.update_apply] at found
    split at found
    · exact knows slot publish found
    · exact (routed.asks other slot publish found).extend grown
  · intro sock
    exact (routed.sockets sock).grow grows

/-- A socket changes and nothing else does. -/
theorem Routed.withSocket {sock : Nat} {socket : Socket} (routed : Routed world)
    (sound : Socket.Sound world socket) : Routed (world.withSocket sock socket) := by
  have grows : Grows world (world.withSocket sock socket) :=
    ⟨fun _ member => member, .refl _, .refl _⟩
  exact routed.changes
    ⟨grows, routed.messages, routed.controls, rfl, rfl, rfl⟩ (sound.grow grows)
    routed.delivered

/-- A socket is caught up, message by message. -/
theorem Routed.catchUp (routed : Routed world) {sock : Nat} {message : MessageOut}
    {rest : List MessageOut}
    (catchingUp : (world.sockets sock).phase = .catchingUp (message :: rest)) :
    Routed (world.send sock (.catchingUp rest) (.message message)) := by
  have sound := routed.sockets sock
  rw [Socket.Sound, catchingUp] at sound
  have grows : Grows world (world.send sock (.catchingUp rest) (.message message)) :=
    ⟨fun _ member => member, .refl _, .refl _⟩
  refine routed.changes ⟨grows, routed.messages, routed.controls, rfl, rfl, rfl⟩ ?_ ?_
  · exact fun other member => sound other (List.mem_cons_of_mem _ member)
  · exact delivered_send routed (sound message List.mem_cons_self)

/-- A socket goes on listening. -/
theorem Routed.advance (routed : Routed world) {sock : Nat}
    (moves : Moves jwt world (.advance sock) next) : Routed next := by
  have sound := routed.sockets sock
  unfold Socket.Sound at sound
  cases moves with
  | channel sock arriving =>
      refine routed.changes
        ⟨⟨fun _ member => member, Hub.extends_channel, .refl _⟩, routed.messages.channel _,
          routed.controls, rfl, rfl, rfl⟩ ?_ routed.delivered
      exact Hub.channel_made
  | listen sock sender handed =>
      rw [handed] at sound
      refine routed.changes
        ⟨⟨fun _ member => member, Hub.extends_listen sender, .refl _⟩,
          routed.messages.listen sound, routed.controls, rfl, rfl, rfl⟩ ?_ routed.delivered
      have hears := Hub.hears_listen sound
      unfold afterListen
      cases (world.sockets sock).student with
      | some student => exact hears
      | none => exact ⟨hears, fun receiver held => by simp at held⟩
  | channelControl sock messages student arriving belongs =>
      rw [arriving] at sound
      refine routed.changes
        ⟨⟨fun _ member => member, .refl _, Hub.extends_channel⟩, routed.messages,
          routed.controls.channel _, rfl, rfl, rfl⟩ ?_ routed.delivered
      exact ⟨sound, student, belongs, Hub.channel_made⟩
  | listenControl sock messages sender handed =>
      rw [handed] at sound
      obtain ⟨hears, student, belongs, made⟩ := sound
      refine routed.changes
        ⟨⟨fun _ member => member, .refl _, Hub.extends_listen sender⟩, routed.messages,
          routed.controls.listen made, rfl, rfl, rfl⟩ ?_ routed.delivered
      refine ⟨hears, fun receiver held => ⟨student, belongs, ?_⟩⟩
      obtain rfl := Option.some.inj held
      exact Hub.hears_listen made

/-- A tailing socket reads what its receivers have. -/
theorem Routed.relay (routed : Routed world) {sock : Nat}
    (moves : Moves jwt world (.relay sock) next) : Routed next := by
  have sound := routed.sockets sock
  have grown (grows : Grows world next) := sound.grow grows
  unfold Socket.Sound at sound
  cases moves with
  | relay sock messages control message hub tailing received meant =>
      rw [tailing] at sound
      obtain ⟨fits, carries⟩ := routed.messages.recv sound.1 received
      have grows : Grows world
          { world.send sock (world.sockets sock).phase (.message message) with
            msgHub := hub } :=
        ⟨fun _ member => member, Hub.extends_recv received, .refl _⟩
      exact routed.changes ⟨grows, carries, routed.controls, rfl, rfl, rfl⟩ (grown grows)
        (delivered_send routed ⟨fits, meant⟩)
  | passOver sock messages control message hub tailing received others =>
      rw [tailing] at sound
      obtain ⟨-, carries⟩ := routed.messages.recv sound.1 received
      have grows : Grows world { world with msgHub := hub } :=
        ⟨fun _ member => member, Hub.extends_recv received, .refl _⟩
      exact routed.changes
        ⟨grows, carries, routed.controls, rfl, rfl, (Function.update_eq_self _ _).symm⟩
        (grown grows) routed.delivered

theorem Routed.relayControl (routed : Routed world) {sock : Nat}
    (moves : Moves jwt world (.relayControl sock) next) : Routed next := by
  have sound := routed.sockets sock
  have grown (grows : Grows world next) := sound.grow grows
  unfold Socket.Sound at sound
  cases moves with
  | relayControl sock messages control asked hub tailing received =>
      rw [tailing] at sound
      obtain ⟨student, belongs, hears⟩ := sound.2 control rfl
      obtain ⟨addressed, carries⟩ := routed.controls.recv hears received
      have grows : Grows world
          { world.send sock (world.sockets sock).phase (.control asked) with
            ctrlHub := hub } :=
        ⟨fun _ member => member, .refl _, Hub.extends_recv received⟩
      exact routed.changes ⟨grows, routed.messages, carries, rfl, rfl, rfl⟩ (grown grows)
        (delivered_send routed ⟨student, belongs, addressed⟩)

/-- A socket's receivers go with it. -/
theorem Routed.hangUp (routed : Routed world) (phase : SocketPhase) :
    Routed (world.hangUp phase) := by
  have dropped (messages : Nat) :
      Routed { world with msgHub := world.msgHub.dropReceiver messages } := by
    have grows : Grows world { world with msgHub := world.msgHub.dropReceiver messages } :=
      ⟨fun _ member => member, Hub.extends_dropReceiver messages, .refl _⟩
    exact routed.changes
      ⟨grows, routed.messages.dropReceiver _, routed.controls, rfl, rfl,
        (Function.update_eq_self 0 _).symm⟩
      ((routed.sockets 0).grow grows) routed.delivered
  cases phase with
  | arrivingControl messages => exact dropped messages
  | handedControl messages sender => exact dropped messages
  | tailing messages control =>
      cases control with
      | none => exact dropped messages
      | some control =>
          have first := dropped messages
          have grows : Grows { world with msgHub := world.msgHub.dropReceiver messages }
              { world with
                msgHub := world.msgHub.dropReceiver messages
                ctrlHub := world.ctrlHub.dropReceiver control } :=
            ⟨fun _ member => member, .refl _, Hub.extends_dropReceiver control⟩
          exact first.changes
            ⟨grows, first.messages, first.controls.dropReceiver _, rfl, rfl,
              (Function.update_eq_self 0 _).symm⟩
            ((first.sockets 0).grow grows) first.delivered
  | unopened | querying | catchingUp | arriving | handed | gone => exact routed

/-- Whatever the server does next, everything stays on its way to those it is for. -/
theorem Routed.step (routed : Routed world)
    (stepped : MessageWorld.step jwt world event = some next) : Routed next := by
  have moves := moves_of_step stepped
  cases event with
  | insert task => exact routed.broadcast moves task (.inl rfl)
  | commit task => exact routed.broadcast moves task (.inr (.inl rfl))
  | rollBack task => exact routed.broadcast moves task (.inr (.inr (.inl rfl)))
  | publish task => exact routed.broadcast moves task (.inr (.inr (.inr rfl)))
  | advance sock => exact routed.advance moves
  | relay sock => exact routed.relay moves
  | relayControl sock => exact routed.relayControl moves
  | configure access =>
      cases moves
      exact ⟨routed.messages, routed.controls, routed.postings, routed.asks, routed.sockets,
        routed.delivered⟩
  | post task request ctx now =>
      cases moves
      exact routed.posted ⟨fun _ member => member, .refl _, .refl _⟩ routed.messages
        ⟨rfl, rfl, rfl, rfl⟩ rfl (sound_post _ request ctx now)
  | ask task slot =>
      cases moves
      refine routed.asked (.refl _) routed.controls fun other publish asking => ?_
      obtain ⟨rfl, rfl⟩ := Prod.mk.inj (Option.some.inj asking)
      exact fun sender holding => by simp at holding
  | publishAsk task =>
      cases moves with
      | publishAsk task slot publish asking =>
          have knows := routed.asks task slot publish asking
          refine routed.asked (Hub.extends_publish _ _ _) (routed.controls.publish knows rfl)
            fun other left going => ?_
          obtain ⟨left', continues, same⟩ := Option.map_eq_some_iff.mp going
          obtain ⟨rfl, rfl⟩ := Prod.mk.inj same
          exact Hub.knows_publish continues
  | connect sock now request headers =>
      cases moves with
      | connect sock now request headers course student unopened accepted =>
          apply routed.withSocket
          unfold Socket.Sound
          cases request.since <;> trivial
  | query sock =>
      cases moves with
      | query sock since querying wanted =>
          apply routed.withSocket
          exact fun message listed => right_of_missed listed
  | queryFailed sock =>
      cases moves
      exact routed.withSocket trivial
  | pass sock =>
      cases moves with
      | pass sock message rest catchingUp => exact routed.catchUp catchingUp
      | caughtUp sock catchingUp => exact routed.withSocket trivial
  | take sock =>
      cases moves
      exact routed.withSocket (routed.sockets sock)
  | close sock =>
      cases moves
      exact (routed.hangUp _).withSocket trivial
  | poll now request headers =>
      cases moves with
      | poll now request headers course student accepted =>
          refine ⟨routed.messages, routed.controls, routed.postings, routed.asks,
            routed.sockets, ?_⟩
          intro delivery member
          rcases List.mem_append.mp member with before | new
          · exact routed.delivered delivery before
          · obtain ⟨message, listed, rfl⟩ := List.mem_map.mp new
            exact right_of_missed listed

end Steps

theorem routed_initial (access : Access) (table : List MessageRow) (nextId : Int) :
    Routed (initial access table nextId) := by
  constructor
  · exact fun receiver member => by simp [initial, Hub.empty] at member
  · exact fun receiver member => by simp [initial, Hub.empty] at member
  · exact fun task => trivial
  · exact fun task slot publish asking => by simp [initial] at asking
  · exact fun sock => trivial
  · exact fun delivery member => by simp [initial] at member

/-- What the database says of a frame: a message is stored in the listener's course
for everyone or for the listener's student, and a control frame is for the
listener's slot. -/
def Delivery.Meant (table : List MessageRow) (delivery : Delivery) : Prop :=
  match delivery.frame with
  | .message message =>
      ∃ row ∈ table, row.courseId = delivery.course ∧ MessageOut.tryFrom row = .ok message ∧
        (row.student = none ∨
          ∃ student, delivery.student = some student ∧ row.student = some student.name)
  | .control asked =>
      ∃ student, delivery.student = some student ∧ asked.slot = ⟨delivery.course, student⟩

theorem Delivery.Right.meant {table : List MessageRow} {delivery : Delivery}
    (right : Delivery.Right table delivery) : Delivery.Meant table delivery := by
  unfold Delivery.Right at right
  unfold Delivery.Meant
  cases frame : delivery.frame with
  | control asked => simpa only [frame] using right
  | message message =>
      simp only [frame] at right ⊢
      obtain ⟨⟨row, member, belongs, made⟩, reached⟩ := right
      refine ⟨row, member, belongs, made, ?_⟩
      obtain ⟨stored, -⟩ := tryFrom_eq_ok_iff.mp made
      rw [stored]
      cases audience : message.audience with
      | everyone => exact .inl rfl
      | student only =>
          rw [audience, Audience.reaches, beq_iff_eq] at reached
          exact .inr ⟨only, reached, rfl⟩

open EventRuns

/-- In every run every frame goes to a listener it is meant for; the two filters
agree on every row with a usable recipient; and where identity is enforced a
listener is routed as the verified student, whatever the request claims. -/
theorem messages_routed (jwt : JsonWebToken) :
    (∀ access table nextId events final,
      run (step jwt) (initial access table nextId) events = some final →
        ∀ delivery ∈ final.delivered, Delivery.Meant final.table delivery) ∧
    (∀ row : MessageRow, (∀ name, row.student = some name → name.trim ≠ []) →
      ∃ out, MessageOut.tryFrom row = .ok out ∧
        ∀ listener, addressedTo listener row = true ↔ out.audience.reaches listener = true) ∧
    ∀ (access : Access) (now : Int) (headers : Headers),
      access.identity.enforced = true →
        (∀ request claimed,
          listener access jwt now { request with student := claimed } headers =
            listener access jwt now request headers) ∧
        (∀ request claimed,
          inboxListener access jwt now { request with student := claimed } headers =
            inboxListener access jwt now request headers) ∧
        (∀ request course student,
          listener access jwt now request headers = .ok (course, student) →
            (∃ only, student = some only ∧
              identified access jwt now headers = some only.name) ∨
            (bearerToken headers).or request.token = none ∧ student = none) ∧
        ∀ request course student,
          inboxListener access jwt now request headers = .ok (course, student) →
            ∃ only, student = some only ∧
              identified access jwt now headers = some only.name := by
  refine ⟨?_, ?_, ?_⟩
  · intro access table nextId events final ran delivery delivered
    have routed := invariant_of_run (fun _ _ _ routed stepped => Routed.step routed stepped)
      (routed_initial access table nextId) ran
    exact (routed.delivered delivery delivered).meant
  · intro row recipient
    obtain ⟨out, made⟩ := exists_tryFrom recipient
    exact ⟨out, made, fun listener => by rw [addressedTo_iff_reaches made]⟩
  · intro access now headers enforced
    exact ⟨listener_claimed_of_enforced enforced,
      inboxListener_claimed_of_enforced enforced,
      fun request course student => listener_of_enforced enforced,
      fun request course student => inboxListener_of_enforced enforced⟩

/-- One course, with students whose identity is enforced. -/
def classroom : Access :=
  { courses := [⟨1, "default".toList, "enroll".toList⟩]
    members := []
    sessions := fun _ => none
    openDev := true
    identity := ⟨some "secret".toList, ["provider".toList]⟩
    reachable := true }

/-- Every token names its bearer. -/
def named : JsonWebToken :=
  fun _ token _ => some token

def Str.bytes (text : Str) : List UInt8 :=
  text.map fun char => char.toNat.toUInt8

def enrolled (name : Str) : Headers :=
  { authorization := some (Str.bytes "Bearer enroll".toList)
    hermioneIdentity := some (Str.bytes name)
    cookie := none }

/-- Alice tails, a message goes to her and one to bob, her file is asked for, and
bob polls. -/
def lesson : List Event :=
  [.connect 0 0 ⟨none, none, none, some bob⟩ (enrolled alice.name), .advance 0, .advance 0,
    .advance 0, .advance 0, .post 0 ⟨none, "hi".toList, some [alice, bob]⟩ .openDev 5,
    .insert 0, .insert 0, .commit 0, .publish 0, .publish 0, .publish 0, .publish 0, .relay 0,
    .relay 0, .ask 0 ⟨1, alice⟩, .publishAsk 0, .publishAsk 0, .relayControl 0,
    .poll 9 ⟨none, some alice⟩ (enrolled bob.name)]

theorem messages_routed_lesson :
    ∃ final, run (step named) (initial classroom [] 1) lesson = some final ∧
      final.delivered.map Delivery.student = [some alice, some alice, some bob] ∧
      (∀ delivery ∈ final.delivered, Delivery.Meant final.table delivery) ∧
      (∃ out, MessageOut.tryFrom ⟨1, 1, [], some alice.name, 5⟩ = .ok out ∧
        ∀ listener, addressedTo listener ⟨1, 1, [], some alice.name, 5⟩ = true ↔
          out.audience.reaches listener = true) ∧
      listener classroom named 0 ⟨none, none, none, some bob⟩ (enrolled alice.name) =
        listener classroom named 0 ⟨none, none, none, some alice⟩ (enrolled alice.name) := by
  obtain ⟨delivered, filters, enforced⟩ := messages_routed named
  refine ⟨_, rfl, rfl, delivered classroom [] 1 lesson _ rfl, filters _ ?_, ?_⟩
  · rintro name same
    obtain rfl := Option.some.inj same
    exact alice.notBlank
  · exact (enforced classroom 0 (enrolled alice.name) rfl).1
      ⟨none, none, none, some alice⟩ (some bob)

end MessageWorld

end Hermione
