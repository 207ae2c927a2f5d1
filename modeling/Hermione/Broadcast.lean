import Mathlib.Data.List.Basic
import Mathlib.Logic.Function.Basic

/-!
# Broadcast channels

A bounded broadcast channel in the manner of an async runtime's: a message sent
goes to every receiver that is listening then, each of which reads at its own
pace.  A receiver that falls more than the capacity behind loses its oldest
messages; it is said to have lagged.

Receivers of all the channels are kept in one list and are named by their place
in it.
-/

namespace Broadcast

/-- A receiving end: the channel it listens on and what it has yet to read. -/
structure Receiver (Msg : Type*) where
  channel : Nat
  unread : List Msg
  /-- Whether it ever lost a message. -/
  lagged : Bool
  alive : Bool
  deriving DecidableEq

variable {Msg : Type*}

namespace Receiver

/-- A receiver made just now: it will see what is sent from now on. -/
def fresh (channel : Nat) : Receiver Msg :=
  ⟨channel, [], false, true⟩

def listensOn (receiver : Receiver Msg) (channel : Nat) : Bool :=
  receiver.alive && receiver.channel == channel

/-- A message sent on a channel, as one receiver sees it. -/
def offer (capacity channel : Nat) (msg : Msg) (receiver : Receiver Msg) : Receiver Msg :=
  if receiver.listensOn channel then
    if receiver.unread.length < capacity then
      { receiver with unread := receiver.unread ++ [msg] }
    else
      { receiver with unread := receiver.unread.tail ++ [msg], lagged := true }
  else receiver

/-- A receiver before and after a message was put last into what it has to read.  Of a
full receiver the oldest message is lost, and it has lagged. -/
def Got (capacity : Nat) (msg : Msg) (before after : Receiver Msg) : Prop :=
  before.unread.length < capacity ∧ after.unread = before.unread ++ [msg] ∨
    capacity ≤ before.unread.length ∧ after.unread = before.unread.tail ++ [msg] ∧
      after.lagged = true

variable {capacity channel : Nat} {msg : Msg} {receiver : Receiver Msg}

/-- A receiver gets what is sent on its channel. -/
theorem got_offer (listens : receiver.listensOn channel = true) :
    receiver.Got capacity msg (receiver.offer capacity channel msg) := by
  rw [offer, if_pos listens]
  split
  · next room => exact .inl ⟨room, rfl⟩
  · next full => exact .inr ⟨Nat.le_of_not_lt full, rfl, rfl⟩

@[simp]
theorem offer_channel : (receiver.offer capacity channel msg).channel = receiver.channel := by
  unfold offer
  split
  · split <;> rfl
  · rfl

@[simp]
theorem offer_alive : (receiver.offer capacity channel msg).alive = receiver.alive := by
  unfold offer
  split
  · split <;> rfl
  · rfl

/-- Lagging is never forgotten. -/
theorem offer_lagged (lagged : receiver.lagged = true) :
    (receiver.offer capacity channel msg).lagged = true := by
  unfold offer
  split
  · split
    · exact lagged
    · rfl
  · exact lagged

theorem steady_of_offer (steady : (receiver.offer capacity channel msg).lagged = false) :
    receiver.lagged = false := by
  by_contra lagged
  rw [Bool.not_eq_false] at lagged
  rw [offer_lagged lagged] at steady
  simp at steady

/-- A receiver that does not lag reads everything sent on its channel. -/
theorem offer_of_listensOn (listens : receiver.listensOn channel = true)
    (kept : (receiver.offer capacity channel msg).lagged = false) :
    receiver.offer capacity channel msg =
      { receiver with unread := receiver.unread ++ [msg] } := by
  unfold offer at kept ⊢
  rw [if_pos listens] at kept ⊢
  split at kept
  · rename_i room
    rw [if_pos room]
  · simp at kept

/-- What a receiver has to read was there before, or is the message, and then it
listens on the channel. -/
theorem mem_offer {waiting : Msg}
    (queued : waiting ∈ (receiver.offer capacity channel msg).unread) :
    waiting ∈ receiver.unread ∨ waiting = msg ∧ receiver.channel = channel := by
  unfold offer at queued
  split at queued
  · rename_i listens
    have here : receiver.channel = channel := by
      simp only [listensOn, Bool.and_eq_true, beq_iff_eq] at listens
      exact listens.2
    split at queued
    · simp only [List.mem_append, List.mem_singleton] at queued
      exact queued.imp_right fun same => ⟨same, here⟩
    · simp only [List.mem_append, List.mem_singleton] at queued
      exact queued.imp List.mem_of_mem_tail fun same => ⟨same, here⟩
  · exact .inl queued

theorem offer_of_not_listensOn (deaf : receiver.listensOn channel = false) :
    receiver.offer capacity channel msg = receiver := by
  simp [offer, deaf]

end Receiver

/-- Whether anyone listens on a channel. -/
def heard (receivers : List (Receiver Msg)) (channel : Nat) : Bool :=
  receivers.any fun receiver => receiver.listensOn channel

def send (capacity : Nat) (receivers : List (Receiver Msg)) (channel : Nat) (msg : Msg) :
    List (Receiver Msg) :=
  receivers.map (Receiver.offer capacity channel msg)

/-- What a receiver reads next, and what is left for it then. -/
def recv (receivers : List (Receiver Msg)) (index : Nat) :
    Option (Msg × List (Receiver Msg)) :=
  match receivers[index]? with
  | some receiver =>
      match receiver.alive, receiver.unread with
      | true, msg :: unread =>
          some (msg, receivers.set index { receiver with unread })
      | _, _ => none
  | none => none

def dropReceiver (receivers : List (Receiver Msg)) (index : Nat) : List (Receiver Msg) :=
  receivers.modify index fun receiver => { receiver with alive := false }

variable {receivers : List (Receiver Msg)} {index : Nat}

@[simp]
theorem getElem?_send (capacity channel : Nat) (msg : Msg) :
    (send capacity receivers channel msg)[index]? =
      (receivers[index]?).map (Receiver.offer capacity channel msg) := by
  rw [send, List.getElem?_map]

@[simp]
theorem length_send (capacity channel : Nat) (msg : Msg) :
    (send capacity receivers channel msg).length = receivers.length :=
  List.length_map _

/-- What a receiver gets is the head of what it had yet to read. -/
theorem recv_eq_some_iff {msg : Msg} {rest : List (Receiver Msg)} :
    recv receivers index = some (msg, rest) ↔
      ∃ receiver unread, receivers[index]? = some receiver ∧ receiver.alive = true ∧
        receiver.unread = msg :: unread ∧
        rest = receivers.set index { receiver with unread } := by
  unfold recv
  constructor
  · intro received
    split at received
    · rename_i receiver found
      split at received
      · rename_i first unread alive queued
        simp only [Option.some.injEq, Prod.mk.injEq] at received
        exact ⟨receiver, unread, found, alive, received.1 ▸ queued, received.2.symm⟩
      · simp at received
    · simp at received
  · rintro ⟨receiver, unread, found, alive, queued, rfl⟩
    simp [found, alive, queued]

theorem getElem?_recv {msg : Msg} {rest : List (Receiver Msg)} {other : Nat}
    (received : recv receivers index = some (msg, rest)) (different : other ≠ index) :
    rest[other]? = receivers[other]? := by
  obtain ⟨receiver, unread, -, -, -, rfl⟩ := recv_eq_some_iff.mp received
  exact List.getElem?_set_ne different.symm

theorem getElem?_dropReceiver_of_ne {other : Nat} (different : other ≠ index) :
    (dropReceiver receivers index)[other]? = receivers[other]? := by
  simp [dropReceiver, different.symm]

theorem mem_dropReceiver {receiver : Receiver Msg}
    (member : receiver ∈ dropReceiver receivers index) :
    ∃ before ∈ receivers, receiver.channel = before.channel ∧
      receiver.unread = before.unread := by
  obtain ⟨position, found⟩ := List.getElem?_of_mem member
  rw [dropReceiver, List.getElem?_modify] at found
  obtain ⟨before, there, same⟩ := Option.map_eq_some_iff.mp found
  refine ⟨before, List.mem_of_getElem? there, ?_⟩
  subst same
  split <;> exact ⟨rfl, rfl⟩

end Broadcast
