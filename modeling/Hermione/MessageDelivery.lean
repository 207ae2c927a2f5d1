import Hermione.MessageSocket

/-!
# What a listening connection is sent

Once a receiver listens on the course's channel, and every committed message was
either handed to the editor or is yet to be sent, this stays so: whatever the
broadcasts do next, every message is somewhere on its way and in one place.
-/

namespace Hermione

/-- What a broadcast has yet to send to a course. -/
def Posting.pending (course : Uuid) : Posting → List Int
  | .publishing owner todo _ _ => if owner = course then todo.map MessageOut.id else []
  | _ => []

/-- How far it is with the next of them. -/
def Posting.stage (course : Uuid) : Posting → Option Publishing
  | .publishing owner _ publish _ => if owner = course then some publish else none
  | _ => none

/-- A committed message for a student, above what the student's editor remembers. -/
def Wanted (slot : Slot) (first : Int) (row : MessageRow) : Prop :=
  row.courseId = slot.course ∧ addressedTo (some slot.student) row = true ∧ first < row.id

/-- The messages among the frames on a wire. -/
def messageIds (wire : List SocketFrame) : List Int :=
  wire.filterMap fun frame =>
    match frame with
    | .message message => some message.id
    | .control _ => none

/-- What a receiver has to read for a student. -/
def waiting (student : Student) (unread : List MessageOut) : List Int :=
  (unread.filter fun message => message.audience.reaches (some student)).map MessageOut.id

theorem messageIds_message (wire : List SocketFrame) (message : MessageOut) :
    messageIds (wire ++ [.message message]) = messageIds wire ++ [message.id] := by
  simp [messageIds]

theorem messageIds_control (wire : List SocketFrame) (asked : Asked) :
    messageIds (wire ++ [.control asked]) = messageIds wire := by
  simp [messageIds]

theorem waiting_cons (student : Student) (message : MessageOut) (unread : List MessageOut) :
    waiting student (message :: unread) =
      if message.audience.reaches (some student) then message.id :: waiting student unread
      else waiting student unread := by
  simp only [waiting, List.filter_cons]
  split <;> simp

namespace MessageWorld

/-- A message was committed, but not sent. -/
def Pending (course : Uuid) (world : MessageWorld) (id : Int) : Prop :=
  ∃ task, id ∈ (world.postings task).pending course

/-- Nobody who is publishing to a course is about to drop its channel, or holds
another one. -/
def Calm (course : Uuid) (world : MessageWorld) (sender : Nat) : Prop :=
  ∀ task publish, (world.postings task).stage course = some publish →
    publish = .looking ∨ publish = .holding sender

/-- A receiver for the editor, which has or will get the messages listed. -/
structure Live (slot : Slot) (first : Int) (world : MessageWorld) (got : List Int)
    (listening : Broadcast.Receiver MessageOut) : Prop where
  alive : listening.alive = true
  bound : world.msgHub.channels slot.course = some listening.channel
  calm : Calm slot.course world listening.channel
  once : ∀ id, first < id → (got ++ waiting slot.student listening.unread).count id ≤ 1
  unsent : ∀ row ∈ world.table, Wanted slot first row → Pending slot.course world row.id →
    row.id ∉ got ++ waiting slot.student listening.unread
  all : listening.lagged = false → ∀ row ∈ world.table, Wanted slot first row →
    ¬ Pending slot.course world row.id → row.id ∈ got ++ waiting slot.student listening.unread

section Live

variable {slot : Slot} {first : Int} {world next : MessageWorld} {got : List Int}
  {listening : Broadcast.Receiver MessageOut} {task : Nat} {posting : Posting}

theorem pending_congr (same : ∀ task, (next.postings task).pending slot.course =
      (world.postings task).pending slot.course) (id : Int) :
    Pending slot.course next id ↔ Pending slot.course world id :=
  exists_congr fun task => by rw [same task]

/-- Nothing that matters to the receiver changes. -/
theorem Live.frame (live : Live slot first world got listening)
    (table : next.table = world.table)
    (bound : next.msgHub.channels slot.course = some listening.channel)
    (calm : Calm slot.course next listening.channel)
    (same : ∀ task, (next.postings task).pending slot.course =
      (world.postings task).pending slot.course) :
    Live slot first next got listening := by
  refine ⟨live.alive, bound, calm, live.once, ?_, ?_⟩
  · intro row member wanted pending
    exact live.unsent row (table ▸ member) wanted ((pending_congr same row.id).mp pending)
  · intro steady row member wanted sent
    exact live.all steady row (table ▸ member) wanted fun pending =>
      sent ((pending_congr same row.id).mpr pending)

/-- The receiver's messages move on, and none is lost on the way. -/
theorem Live.relist {gotten : List Int} {receiver : Broadcast.Receiver MessageOut}
    (live : Live slot first world got listening)
    (kept : receiver.alive = listening.alive ∧ receiver.channel = listening.channel ∧
      receiver.lagged = listening.lagged)
    (same : gotten ++ waiting slot.student receiver.unread =
      got ++ waiting slot.student listening.unread) :
    Live slot first world gotten receiver := by
  obtain ⟨alive, channel, lagged⟩ := kept
  constructor
  · rw [alive, live.alive]
  · rw [channel, live.bound]
  · rw [channel]
    exact live.calm
  · rw [same]
    exact live.once
  · rw [same]
    exact live.unsent
  · rw [same, lagged]
    exact live.all

theorem pending_update (postings : next.postings = Function.update world.postings task posting)
    (same : posting.pending slot.course = (world.postings task).pending slot.course)
    (other : Nat) :
    (next.postings other).pending slot.course = (world.postings other).pending slot.course := by
  rw [postings, Function.update_apply]
  split
  · rename_i here
    rw [here, same]
  · rfl

theorem calm_update {sender : Nat} (calm : Calm slot.course world sender)
    (postings : next.postings = Function.update world.postings task posting)
    (mine : ∀ publish, posting.stage slot.course = some publish →
      publish = .looking ∨ publish = .holding sender) :
    Calm slot.course next sender := by
  intro other publish staged
  rw [postings, Function.update_apply] at staged
  split at staged
  · exact mine publish staged
  · exact calm other publish staged

theorem stage_nextPublish {course owner : Uuid} {todo : List MessageOut}
    {answer : Option Int × Nat} {publish : Publishing}
    (staged : (nextPublish owner todo answer).stage course = some publish) :
    publish = .looking := by
  cases todo with
  | nil => simp [nextPublish, Posting.stage] at staged
  | cons message rest =>
      simp only [nextPublish, Posting.stage, Option.ite_none_right_eq_some,
        Option.some.injEq] at staged
      exact staged.2.symm

theorem pending_nextPublish (course owner : Uuid) (todo : List MessageOut)
    (answer : Option Int × Nat) :
    (nextPublish owner todo answer).pending course =
      if owner = course then todo.map MessageOut.id else [] := by
  cases todo <;> simp [nextPublish, Posting.pending]

/-- A message for the student that is sent has a row of its own. -/
theorem exists_row_of_fits (first : Int) {table : List MessageRow} {message : MessageOut}
    (fits : Fits table slot.course message) :
    ∃ row ∈ table, row.id = message.id ∧
      (Wanted slot first row ↔
        message.audience.reaches (some slot.student) = true ∧ first < message.id) := by
  obtain ⟨row, member, belongs, made⟩ := fits
  obtain ⟨-, same, -⟩ := tryFrom_eq_ok_iff.mp made
  refine ⟨row, member, same, ?_⟩
  rw [Wanted, addressedTo_iff_reaches made, same]
  exact ⟨fun wanted => wanted.2, fun reached => ⟨belongs, reached⟩⟩

/-- More rows are committed, all of them yet to be sent. -/
theorem Live.commit {rows : List MessageRow} (live : Live slot first world got listening)
    (table : next.table = world.table ++ rows)
    (bound : next.msgHub.channels slot.course = some listening.channel)
    (calm : Calm slot.course next listening.channel)
    (stored : ∀ id ∈ got ++ waiting slot.student listening.unread,
      ∃ row ∈ world.table, row.id = id)
    (fresh : ∀ row ∈ rows, ∀ other ∈ world.table, other.id ≠ row.id)
    (pends : ∀ row ∈ rows, row.courseId = slot.course → Pending slot.course next row.id)
    (same : ∀ row ∈ world.table, Pending slot.course next row.id ↔
      Pending slot.course world row.id) :
    Live slot first next got listening := by
  refine ⟨live.alive, bound, calm, live.once, ?_, ?_⟩
  · intro row member wanted pending
    rw [table] at member
    rcases List.mem_append.mp member with old | new
    · exact live.unsent row old wanted ((same row old).mp pending)
    · intro listed
      obtain ⟨other, before, equal⟩ := stored row.id listed
      exact fresh row new other before equal
  · intro steady row member wanted sent
    rw [table] at member
    rcases List.mem_append.mp member with old | new
    · exact live.all steady row old wanted fun pending => sent ((same row old).mpr pending)
    · exact absurd (pends row new wanted.1) sent

theorem waiting_append (student : Student) (unread more : List MessageOut) :
    waiting student (unread ++ more) = waiting student unread ++ waiting student more := by
  simp [waiting]

/-- What a message sent leaves a receiver to read: no more than before and the
message, and exactly that unless it lags. -/
theorem offer_waiting (student : Student) (capacity : Nat) (message : MessageOut)
    (listens : listening.listensOn listening.channel = true) :
    List.Sublist
        (waiting student (listening.offer capacity listening.channel message).unread)
        (waiting student listening.unread ++ waiting student [message]) ∧
      ((listening.offer capacity listening.channel message).lagged = false →
        waiting student (listening.offer capacity listening.channel message).unread =
          waiting student listening.unread ++ waiting student [message]) := by
  constructor
  · rw [← waiting_append]
    refine List.Sublist.map _ (List.Sublist.filter _ ?_)
    unfold Broadcast.Receiver.offer
    rw [if_pos listens]
    split
    · exact List.Sublist.refl _
    · exact (List.tail_sublist _).append_right _
  · intro steady
    rw [Broadcast.Receiver.offer_of_listensOn listens steady, waiting_append]

/-- The next message is sent to the receiver. -/
theorem Live.send {capacity : Nat} {message : MessageOut}
    (live : Live slot first world got listening)
    (table : next.table = world.table)
    (numbered : Sequenced world.table world.nextId)
    (fits : Fits world.table slot.course message)
    (bound : next.msgHub.channels slot.course = some listening.channel)
    (calm : Calm slot.course next listening.channel)
    (pending : ∀ id, Pending slot.course world id ↔
      id = message.id ∨ Pending slot.course next id)
    (sent : ¬ Pending slot.course next message.id) :
    Live slot first next got (listening.offer capacity listening.channel message) := by
  have listens : listening.listensOn listening.channel = true := by
    simp [Broadcast.Receiver.listensOn, live.alive]
  obtain ⟨fewer, exactly⟩ := offer_waiting slot.student capacity message listens
  obtain ⟨row, member, own, meant⟩ := exists_row_of_fits first fits
  have hasBeen : Pending slot.course world row.id := (pending row.id).mpr (.inl own)
  -- The message itself, if it is for the student.
  have arriving (id : Int) (listed : id ∈ waiting slot.student [message]) :
      id = message.id ∧ message.audience.reaches (some slot.student) = true := by
    simp only [waiting, List.mem_map, List.mem_filter, List.mem_singleton] at listed
    obtain ⟨other, ⟨rfl, reached⟩, rfl⟩ := listed
    exact ⟨rfl, reached⟩
  refine ⟨?_, ?_, ?_, ?_, ?_, ?_⟩
  · rw [Broadcast.Receiver.offer_alive, live.alive]
  · rw [Broadcast.Receiver.offer_channel, bound]
  · rw [Broadcast.Receiver.offer_channel]
    exact calm
  · intro id above
    have bounded :
        (got ++ waiting slot.student
            (listening.offer capacity listening.channel message).unread).count id ≤
          (got ++ waiting slot.student listening.unread).count id +
            (waiting slot.student [message]).count id := by
      refine Nat.le_trans ((fewer.append_left got).count_le id) (Nat.le_of_eq ?_)
      rw [← List.append_assoc, List.count_append]
    by_cases listed : id ∈ waiting slot.student [message]
    · obtain ⟨rfl, reached⟩ := arriving id listed
      have missing := live.unsent row member (meant.mpr ⟨reached, above⟩) hasBeen
      rw [own] at missing
      have new : (waiting slot.student [message]).count message.id ≤ 1 := by
        simp only [waiting, List.filter_cons, List.filter_nil]
        split <;> simp
      rw [List.count_eq_zero_of_not_mem missing] at bounded
      omega
    · have := live.once id above
      rw [List.count_eq_zero_of_not_mem listed] at bounded
      omega
  · intro other listed wanted still
    rw [table] at listed
    have different : other.id ≠ message.id := fun same => sent (same ▸ still)
    have missing := live.unsent other listed wanted ((pending other.id).mpr (.inr still))
    intro here
    have before := (fewer.append_left got).subset here
    rw [← List.append_assoc, List.mem_append] at before
    rcases before with earlier | new
    · exact missing earlier
    · exact different (arriving other.id new).1
  · intro steady other listed wanted gone
    rw [table] at listed
    rw [exactly steady, ← List.append_assoc]
    by_cases due : Pending slot.course world other.id
    · have same : other.id = message.id := ((pending other.id).mp due).resolve_right gone
      obtain rfl := numbered.eq_of_id listed member (same.trans own.symm)
      have reached := (meant.mp wanted).1
      exact List.mem_append_right _ (by simp [waiting, reached, own])
    · exact List.mem_append_left _ (live.all (Broadcast.Receiver.steady_of_offer steady)
        other listed wanted due)

section Broadcast

variable {jwt : JsonWebToken} {event : MessageWorld.Event} {receiver : Nat}

/-- The numbers a broadcast to another course has yet to send are none of the
course's. -/
theorem pending_of_ne {course owner : Uuid} (foreign : owner ≠ course)
    (todo : List MessageOut) (publish : Publishing) (answer : Option Int × Nat) :
    (Posting.publishing owner todo publish answer).pending course = [] :=
  if_neg foreign

theorem pending_self (course : Uuid) (todo : List MessageOut) (publish : Publishing)
    (answer : Option Int × Nat) :
    (Posting.publishing course todo publish answer).pending course =
      todo.map MessageOut.id :=
  if_pos rfl

theorem stage_self (course : Uuid) (todo : List MessageOut) (publish : Publishing)
    (answer : Option Int × Nat) :
    (Posting.publishing course todo publish answer).stage course = some publish :=
  if_pos rfl

theorem pending_subset_ids (course : Uuid) (posting : Posting) :
    posting.pending course ⊆ posting.ids := by
  cases posting with
  | publishing owner todo publish answer =>
      simp only [Posting.pending, Posting.ids]
      split <;> simp
  | idle | inserting | answered => simp [Posting.pending]

/-- What is pending once a broadcast sent its next message. -/
theorem pending_sent {message : MessageOut} {todo : List MessageOut} {publish : Publishing}
    {answer : Option Int × Nat} (told : Told world)
    (publishing :
      world.postings task = .publishing slot.course (message :: todo) publish answer)
    (postings : next.postings =
      Function.update world.postings task (nextPublish slot.course todo answer)) :
    (∀ id, Pending slot.course world id ↔ id = message.id ∨ Pending slot.course next id) ∧
      ¬ Pending slot.course next message.id := by
  have mine : (world.postings task).pending slot.course =
      message.id :: todo.map MessageOut.id := by
    rw [publishing, pending_self, List.map_cons]
  have after (other : Nat) : (next.postings other).pending slot.course =
      if other = task then todo.map MessageOut.id
      else (world.postings other).pending slot.course := by
    rw [postings, Function.update_apply]
    split
    · rw [pending_nextPublish, if_pos rfl]
    · rfl
  constructor
  · intro id
    constructor
    · rintro ⟨other, listed⟩
      by_cases here : other = task
      · rw [here, mine, List.mem_cons] at listed
        exact listed.imp_right fun left => ⟨task, by rwa [after, if_pos rfl]⟩
      · exact .inr ⟨other, by rwa [after, if_neg here]⟩
    · rintro (rfl | ⟨other, listed⟩)
      · exact ⟨task, by simp [mine]⟩
      · rw [after] at listed
        split at listed
        · exact ⟨task, by rw [mine]; exact List.mem_cons_of_mem _ listed⟩
        · exact ⟨other, listed⟩
  · rintro ⟨other, listed⟩
    have own : (world.postings task).ids = message.id :: todo.map MessageOut.id := by
      rw [publishing]
      rfl
    rw [after] at listed
    split at listed
    · exact (List.nodup_cons.mp (own ▸ told.once task)).1 listed
    · rename_i different
      exact told.apart task other (Ne.symm different) message.id (by simp [own])
        (pending_subset_ids _ _ listed)

/-- A message is published while the receiver is there. -/
theorem Live.publish {owner : Uuid} {message : MessageOut} {todo : List MessageOut}
    {answer : Option Int × Nat} {sender : Nat}
    (live : Live slot first world got listening) (routed : Routed world) (told : Told world)
    (found : world.msgHub.receivers[receiver]? = some listening)
    (publishing :
      world.postings task = .publishing owner (message :: todo) (.holding sender) answer) :
    ∃ after, (world.msgHub.send MSG_HUB_CAP sender message).1.receivers[receiver]? = some after ∧
      Live slot first
        { world.withPosting task
            (if (world.msgHub.send MSG_HUB_CAP sender message).2 then
              nextPublish owner todo answer
            else .publishing owner (message :: todo) .forgetting answer) with
          msgHub := (world.msgHub.send MSG_HUB_CAP sender message).1 }
        got after := by
  have sound := routed.postings task
  rw [publishing] at sound
  have made := world.msgHub.made slot.course listening.channel live.bound
  have kept : (world.msgHub.send MSG_HUB_CAP sender message).1.receivers[receiver]? =
      some (listening.offer MSG_HUB_CAP sender message) := by
    simp [Hub.send, found]
  refine ⟨_, kept, ?_⟩
  by_cases foreign : owner = slot.course
  · subst foreign
    have same : sender = listening.channel := by
      have staged := live.calm task (.holding sender) (by rw [publishing, stage_self])
      rcases staged with looking | holding
      · simp at looking
      · exact Publishing.holding.inj holding
    subst same
    have heard : (world.msgHub.send MSG_HUB_CAP listening.channel message).2 = true := by
      simp only [Hub.send, Broadcast.heard, List.any_eq_true]
      exact ⟨listening, List.mem_of_getElem? found,
        by simp [Broadcast.Receiver.listensOn, live.alive]⟩
    rw [if_pos heard]
    have counted := pending_sent told publishing
      (rfl : { world.withPosting task (nextPublish slot.course todo answer) with
        msgHub := (world.msgHub.send MSG_HUB_CAP listening.channel message).1 }.postings = _)
    obtain ⟨pending, sent⟩ := counted
    exact live.send rfl told.table (sound.1 message List.mem_cons_self) live.bound
      (calm_update live.calm rfl fun publish staged => .inl (stage_nextPublish staged))
      pending sent
  · have deaf : listening.listensOn sender = false := by
      simp only [Broadcast.Receiver.listensOn, live.alive, Bool.true_and, beq_eq_false_iff_ne]
      rintro rfl
      have known := sound.2 listening.channel rfl
      rw [made] at known
      exact foreign (Option.some.inj known).symm
    rw [Broadcast.Receiver.offer_of_not_listensOn deaf]
    refine live.frame rfl live.bound (calm_update live.calm rfl fun publish staged => ?_)
      (pending_update rfl ?_)
    · split at staged
      · exact .inl (stage_nextPublish staged)
      · simp [Posting.stage, foreign] at staged
    · rw [publishing, pending_of_ne foreign]
      split
      · rw [pending_nextPublish, if_neg foreign]
      · exact pending_of_ne foreign _ _ _

/-- A broadcast goes on while the receiver is there. -/
theorem Live.broadcast (live : Live slot first world got listening) (routed : Routed world)
    (told : Told world) (found : world.msgHub.receivers[receiver]? = some listening)
    (stored : ∀ id ∈ got ++ waiting slot.student listening.unread,
      ∃ row ∈ world.table, row.id = id)
    (moves : MessageWorld.Moves jwt world event next) (task : Nat)
    (about : event = .insert task ∨ event = .commit task ∨ event = .rollBack task ∨
      event = .publish task) :
    ∃ after, next.msgHub.receivers[receiver]? = some after ∧
      Live slot first next got after := by
  cases moves with
  | insert task course text now audience todo rows sent inserting =>
      refine ⟨listening, found, live.frame rfl live.bound
        (calm_update live.calm rfl fun publish staged => ?_) (pending_update rfl ?_)⟩
      · simp [Posting.stage] at staged
      · rw [inserting]
        rfl
  | commit task course text now rows sent inserting =>
      have mine := told.drafted task
      have sound := routed.postings task
      rw [inserting] at mine sound
      obtain ⟨-, numbers, fresh⟩ := mine
      have mine : (world.postings task).pending slot.course = [] := by rw [inserting]; rfl
      refine ⟨listening, found, live.commit rfl live.bound
        (calm_update live.calm rfl fun publish staged => .inl (stage_nextPublish staged))
        stored (fun row member => (fresh row member).2) ?_ ?_⟩
      · intro row member belongs
        refine ⟨task, ?_⟩
        simp only [withPosting, Function.update_self, pending_nextPublish]
        rw [if_pos ((sound.1 row member).symm.trans belongs), numbers]
        exact List.mem_map_of_mem member
      · intro row member
        constructor
        · rintro ⟨other, listed⟩
          simp only [withPosting, Function.update_apply] at listed
          split at listed
          · rw [pending_nextPublish] at listed
            split at listed
            · rw [numbers] at listed
              obtain ⟨new, inserted, same⟩ := List.mem_map.mp listed
              exact absurd same.symm ((fresh new inserted).2 row member)
            · simp at listed
          · exact ⟨other, listed⟩
        · rintro ⟨other, listed⟩
          refine ⟨other, ?_⟩
          simp only [withPosting, Function.update_apply]
          split
          · rename_i here
            rw [here, mine] at listed
            simp at listed
          · exact listed
  | rollBack task course text now todo rows sent inserting =>
      refine ⟨listening, found, live.frame rfl live.bound
        (calm_update live.calm rfl fun publish staged => ?_) (pending_update rfl ?_)⟩
      · simp [Posting.stage] at staged
      · rw [inserting]
        rfl
  | lookUp task course message todo answer sender publishing bound =>
      refine ⟨listening, found, live.frame rfl live.bound
        (calm_update live.calm rfl fun publish staged => ?_) (pending_update rfl ?_)⟩
      · simp only [Posting.stage, Option.ite_none_right_eq_some, Option.some.injEq] at staged
        obtain ⟨rfl, rfl⟩ := staged
        rw [live.bound] at bound
        exact .inr (congrArg _ (Option.some.inj bound).symm)
      · rw [publishing]
        rfl
  | nobody task course message todo answer publishing unbound =>
      have foreign : course ≠ slot.course := by
        rintro rfl
        rw [live.bound] at unbound
        simp at unbound
      refine ⟨listening, found, live.frame rfl live.bound
        (calm_update live.calm rfl fun publish staged => .inl (stage_nextPublish staged))
        (pending_update rfl ?_)⟩
      rw [publishing, pending_of_ne foreign, pending_nextPublish, if_neg foreign]
  | publish task course message todo answer sender publishing =>
      exact live.publish routed told found publishing
  | forget task course message todo answer publishing =>
      have foreign : course ≠ slot.course := by
        rintro rfl
        have staged := live.calm task .forgetting (by rw [publishing, stage_self])
        simp at staged
      refine ⟨listening, found, live.frame rfl ?_
        (calm_update live.calm rfl fun publish staged => .inl (stage_nextPublish staged))
        (pending_update rfl ?_)⟩
      · exact (Hub.remove_channels_of_ne foreign.symm).trans live.bound
      · rw [publishing, pending_of_ne foreign, pending_nextPublish, if_neg foreign]
  | _ => simp at about

end Broadcast

end Live

end MessageWorld

end Hermione
