import Hermione.Broadcast

/-!
# The live fan-out hub

A set of broadcast channels keyed by whatever the fan-out is per.  Terminal
chunks go out per session, messages per course and control frames per student.

A channel is known by its serial number.  A task that was handed a sender keeps
it whatever becomes of the map, so sending is by serial and not by key; but a
channel is only ever bound to the key it was made for.
-/

namespace Hermione

open Broadcast

/-- How far a call of `publish` is. -/
inductive Publishing where
  | looking
  /-- It was handed the sender. -/
  | holding (sender : Nat)
  /-- Nobody was listening: the key is about to be dropped. -/
  | forgetting
  deriving DecidableEq, Repr

/-- The map of channels, and every receiver ever made. -/
structure Hub (Key Msg : Type*) where
  channels : Key → Option Nat
  /-- The key each channel ever made was made for. -/
  keys : List Key
  receivers : List (Receiver Msg)
  made : ∀ key channel, channels key = some channel → keys[channel]? = some key

namespace Hub

variable {Key Msg : Type*}

def empty : Hub Key Msg :=
  { channels := fun _ => none
    keys := []
    receivers := []
    made := by simp }

/-- How many channels were ever made. -/
def opened (hub : Hub Key Msg) : Nat :=
  hub.keys.length

theorem numbered (hub : Hub Key Msg) (key : Key) (channel : Nat)
    (bound : hub.channels key = some channel) : channel < hub.opened :=
  (List.getElem?_eq_some_iff.mp (hub.made key channel bound)).1

section Map

variable [DecidableEq Key]

/-- Bind a key to a channel made for it. -/
def openChannel (hub : Hub Key Msg) (key : Key) : Hub Key Msg :=
  { hub with
    channels := Function.update hub.channels key (some hub.opened)
    keys := hub.keys ++ [key]
    made := by
      intro other channel bound
      rw [Function.update_apply] at bound
      split at bound
      · rename_i same
        simp only [Option.some.injEq] at bound
        simp [← bound, opened, same]
      · have before := hub.made other channel bound
        have within := (List.getElem?_eq_some_iff.mp before).1
        rw [List.getElem?_append_left within, before] }

/-- The sender for a key, creating the channel if nobody has used it yet. -/
def channel (hub : Hub Key Msg) (key : Key) : Hub Key Msg × Nat :=
  match hub.channels key with
  | some sender => (hub, sender)
  | none => (hub.openChannel key, hub.opened)

/-- Drop a channel from the map. -/
def remove (hub : Hub Key Msg) (key : Key) : Hub Key Msg :=
  { hub with
    channels := Function.update hub.channels key none
    made := by
      intro other channel bound
      rw [Function.update_apply] at bound
      split at bound
      · simp at bound
      · exact hub.made other channel bound }

end Map

/-- `Sender::subscribe`: the receiver's place in the list. -/
def listen (hub : Hub Key Msg) (sender : Nat) : Hub Key Msg × Nat :=
  ({ hub with receivers := hub.receivers ++ [Receiver.fresh sender] }, hub.receivers.length)

/-- `Sender::send`: whether anyone was listening. -/
def send (capacity : Nat) (hub : Hub Key Msg) (sender : Nat) (msg : Msg) :
    Hub Key Msg × Bool :=
  ({ hub with receivers := Broadcast.send capacity hub.receivers sender msg },
    heard hub.receivers sender)

/-- `Receiver::recv`, when there is something to read. -/
def recv (hub : Hub Key Msg) (receiver : Nat) : Option (Msg × Hub Key Msg) :=
  (Broadcast.recv hub.receivers receiver).map fun received =>
    (received.1, { hub with receivers := received.2 })

/-- The receiver goes out of scope. -/
def dropReceiver (hub : Hub Key Msg) (receiver : Nat) : Hub Key Msg :=
  { hub with receivers := Broadcast.dropReceiver hub.receivers receiver }

/-- Whether anything is listening on a key right now. -/
def isListening (hub : Hub Key Msg) (key : Key) : Bool :=
  match hub.channels key with
  | some sender => heard hub.receivers sender
  | none => false

/-- The next step of a call of `publish`, and where that leaves it. -/
def publish [DecidableEq Key] (capacity : Nat) (hub : Hub Key Msg) (key : Key) (msg : Msg) :
    Publishing → Hub Key Msg × Option Publishing
  | .looking => (hub, (hub.channels key).map .holding)
  | .holding sender =>
      let (hub, heard) := hub.send capacity sender msg
      (hub, if heard then none else some .forgetting)
  | .forgetting => (hub.remove key, none)

variable [DecidableEq Key] {hub : Hub Key Msg} {key other : Key}

/-- The key is bound to the sender handed out. -/
@[simp]
theorem channel_channels_self :
    (hub.channel key).1.channels key = some (hub.channel key).2 := by
  unfold channel
  split
  · assumption
  · simp [openChannel]

theorem channel_channels_of_ne (different : other ≠ key) :
    (hub.channel key).1.channels other = hub.channels other := by
  unfold channel
  split
  · rfl
  · exact Function.update_of_ne different _ _

theorem opened_le_channel : hub.opened ≤ (hub.channel key).1.opened := by
  unfold channel
  split
  · exact Nat.le_refl _
  · simp [opened, openChannel]

/-- A binding that is there stays. -/
theorem channel_channels_of_eq_some {sender : Nat} (bound : hub.channels other = some sender) :
    (hub.channel key).1.channels other = some sender := by
  by_cases same : other = key
  · subst same
    rw [channel, bound]
    exact bound
  · rw [channel_channels_of_ne same, bound]

/-- A binding that appears is of a channel made just now. -/
theorem channel_channels_cases {sender : Nat}
    (bound : (hub.channel key).1.channels other = some sender) :
    hub.channels other = some sender ∨ hub.opened ≤ sender := by
  by_cases same : other = key
  · subst same
    unfold channel at bound
    split at bound
    · exact .inl bound
    · right
      have : hub.opened = sender := by simpa [openChannel] using bound
      omega
  · rw [channel_channels_of_ne same] at bound
    exact .inl bound

@[simp]
theorem channel_receivers : (hub.channel key).1.receivers = hub.receivers := by
  unfold channel
  split <;> rfl

theorem channel_lt_opened : (hub.channel key).2 < (hub.channel key).1.opened :=
  (hub.channel key).1.numbered key _ channel_channels_self

@[simp]
theorem remove_channels_self : (hub.remove key).channels key = none :=
  Function.update_self _ _ _

theorem remove_channels_of_ne (different : other ≠ key) :
    (hub.remove key).channels other = hub.channels other :=
  Function.update_of_ne different _ _

/-- The key a channel was made for. -/
theorem channel_made : (hub.channel key).1.keys[(hub.channel key).2]? = some key :=
  (hub.channel key).1.made key _ channel_channels_self

/-! ## What every later hub still has -/

/-- A channel stays the channel of its key, and a receiver on its channel. -/
structure Extends (hub later : Hub Key Msg) : Prop where
  keys : ∀ (channel : Nat) (key : Key), hub.keys[channel]? = some key →
    later.keys[channel]? = some key
  receivers : ∀ (index : Nat) (receiver : Receiver Msg),
    hub.receivers[index]? = some receiver →
      ∃ other, later.receivers[index]? = some other ∧ other.channel = receiver.channel

omit [DecidableEq Key] in
theorem Extends.refl (hub : Hub Key Msg) : Extends hub hub :=
  ⟨fun _ _ made => made, fun _ receiver found => ⟨receiver, found, rfl⟩⟩

theorem extends_channel : Extends hub (hub.channel key).1 := by
  constructor
  · intro channel other made
    unfold Hub.channel
    split
    · exact made
    · have within := (List.getElem?_eq_some_iff.mp made).1
      simp [openChannel, List.getElem?_append_left within, made]
  · intro index receiver found
    exact ⟨receiver, by rw [channel_receivers, found], rfl⟩

omit [DecidableEq Key] in
theorem extends_listen (sender : Nat) : Extends hub (hub.listen sender).1 := by
  refine ⟨fun _ _ made => made, fun index receiver found => ⟨receiver, ?_, rfl⟩⟩
  have within := (List.getElem?_eq_some_iff.mp found).1
  simp [listen, List.getElem?_append_left within, found]

omit [DecidableEq Key] in
theorem extends_send (capacity sender : Nat) (msg : Msg) :
    Extends hub (hub.send capacity sender msg).1 := by
  refine ⟨fun _ _ made => made, fun index receiver found => ?_⟩
  exact ⟨receiver.offer capacity sender msg, by simp [send, found], by simp⟩

omit [DecidableEq Key] in
theorem extends_recv {receiver : Nat} {msg : Msg} {later : Hub Key Msg}
    (received : hub.recv receiver = some (msg, later)) : Extends hub later := by
  obtain ⟨⟨first, rest⟩, read, same⟩ := Option.map_eq_some_iff.mp received
  obtain ⟨rfl, rfl⟩ := Prod.mk.inj same
  obtain ⟨listening, unread, found, -, -, rfl⟩ := Broadcast.recv_eq_some_iff.mp read
  refine ⟨fun _ _ made => made, fun index other here => ?_⟩
  by_cases same : receiver = index
  · subst same
    rw [found] at here
    obtain rfl := Option.some.inj here
    exact ⟨_, List.getElem?_set_self (List.getElem?_eq_some_iff.mp found).1, rfl⟩
  · exact ⟨other, by rw [List.getElem?_set_ne same, here], rfl⟩

omit [DecidableEq Key] in
theorem extends_dropReceiver (receiver : Nat) : Extends hub (hub.dropReceiver receiver) := by
  refine ⟨fun _ _ made => made, fun index other found => ?_⟩
  by_cases same : receiver = index
  · subst same
    exact ⟨{ other with alive := false }, by
      simp [Hub.dropReceiver, Broadcast.dropReceiver, found], rfl⟩
  · refine ⟨other, ?_, rfl⟩
    rw [← found]
    exact Broadcast.getElem?_dropReceiver_of_ne (Ne.symm same)

theorem extends_remove : Extends hub (hub.remove key) :=
  ⟨fun _ _ made => made, fun _ receiver found => ⟨receiver, found, rfl⟩⟩

theorem extends_publish (capacity : Nat) (msg : Msg) (publishing : Publishing) :
    Extends hub (hub.publish capacity key msg publishing).1 := by
  cases publishing with
  | looking => exact .refl hub
  | holding sender => exact extends_send capacity sender msg
  | forgetting => exact extends_remove

omit [DecidableEq Key] in
/-- What is read was the first to read, and nothing else changes. -/
theorem of_recv {receiver : Nat} {msg : Msg} {later : Hub Key Msg} {listening : Receiver Msg}
    (found : hub.receivers[receiver]? = some listening)
    (received : hub.recv receiver = some (msg, later)) :
    ∃ unread, listening.unread = msg :: unread ∧ later.channels = hub.channels ∧
      later.receivers[receiver]? = some { listening with unread } := by
  obtain ⟨⟨first, rest⟩, read, same⟩ := Option.map_eq_some_iff.mp received
  obtain ⟨rfl, rfl⟩ := Prod.mk.inj same
  obtain ⟨other, unread, here, -, queued, rfl⟩ := Broadcast.recv_eq_some_iff.mp read
  rw [found] at here
  obtain rfl := Option.some.inj here
  exact ⟨unread, queued, rfl, List.getElem?_set_self (List.getElem?_eq_some_iff.mp found).1⟩

/-! ## What a hub's receivers can have to read -/

/-- Whatever waits in a receiver is right for the key its channel was made for. -/
def Carries (fits : Key → Msg → Prop) (hub : Hub Key Msg) : Prop :=
  ∀ receiver ∈ hub.receivers, ∃ key, hub.keys[receiver.channel]? = some key ∧
    ∀ msg ∈ receiver.unread, fits key msg

/-- A receiver listens on a key. -/
def Hears (hub : Hub Key Msg) (receiver : Nat) (key : Key) : Prop :=
  ∃ listening, hub.receivers[receiver]? = some listening ∧
    hub.keys[listening.channel]? = some key

/-- What a call of `publish` holds was made for its key. -/
def Knows (hub : Hub Key Msg) (key : Key) (publishing : Publishing) : Prop :=
  ∀ sender, publishing = .holding sender → hub.keys[sender]? = some key

section Carries

variable {fits : Key → Msg → Prop} {later : Hub Key Msg}

omit [DecidableEq Key]

theorem Hears.extend {receiver : Nat} (hears : hub.Hears receiver key)
    (grown : Extends hub later) : later.Hears receiver key := by
  obtain ⟨listening, found, made⟩ := hears
  obtain ⟨other, foundLater, same⟩ := grown.receivers receiver listening found
  exact ⟨other, foundLater, grown.keys _ key (same ▸ made)⟩

theorem Knows.extend {publishing : Publishing} (knows : hub.Knows key publishing)
    (grown : Extends hub later) : later.Knows key publishing :=
  fun sender holding => grown.keys sender key (knows sender holding)

theorem hears_listen {sender : Nat} (made : hub.keys[sender]? = some key) :
    (hub.listen sender).1.Hears (hub.listen sender).2 key :=
  ⟨Receiver.fresh sender, by simp [listen], made⟩

theorem Carries.mono {other : Key → Msg → Prop} (carries : hub.Carries fits)
    (weaker : ∀ key msg, fits key msg → other key msg) : hub.Carries other := by
  intro receiver member
  obtain ⟨key, made, right⟩ := carries receiver member
  exact ⟨key, made, fun msg waiting => weaker key msg (right msg waiting)⟩

theorem Carries.listen {sender : Nat} (carries : hub.Carries fits)
    (made : hub.keys[sender]? = some key) : (hub.listen sender).1.Carries fits := by
  intro receiver member
  rcases List.mem_append.mp member with before | new
  · exact carries receiver before
  · rw [List.mem_singleton.mp new]
    exact ⟨key, made, by simp [Receiver.fresh]⟩

theorem Carries.send {capacity sender : Nat} {msg : Msg} (carries : hub.Carries fits)
    (made : hub.keys[sender]? = some key) (right : fits key msg) :
    (hub.send capacity sender msg).1.Carries fits := by
  intro receiver member
  obtain ⟨before, listed, rfl⟩ := List.mem_map.mp member
  obtain ⟨own, madeOwn, rightOwn⟩ := carries before listed
  refine ⟨own, by rw [Receiver.offer_channel]; exact madeOwn, ?_⟩
  intro waiting queued
  rcases Receiver.mem_offer queued with old | ⟨rfl, listens⟩
  · exact rightOwn waiting old
  · rw [listens, made] at madeOwn
    exact Option.some.inj madeOwn ▸ right

/-- What is read is right for the key, and so is what is left. -/
theorem Carries.recv {receiver : Nat} {msg : Msg} (carries : hub.Carries fits)
    (hears : hub.Hears receiver key) (received : hub.recv receiver = some (msg, later)) :
    fits key msg ∧ later.Carries fits := by
  obtain ⟨⟨first, rest⟩, read, same⟩ := Option.map_eq_some_iff.mp received
  obtain ⟨rfl, rfl⟩ := Prod.mk.inj same
  obtain ⟨listening, unread, found, -, queued, rfl⟩ := Broadcast.recv_eq_some_iff.mp read
  obtain ⟨other, foundOther, made⟩ := hears
  obtain rfl : listening = other := by
    rw [found] at foundOther
    exact Option.some.inj foundOther
  obtain ⟨own, madeOwn, right⟩ := carries listening (List.mem_of_getElem? found)
  obtain rfl : own = key := by
    rw [made] at madeOwn
    exact (Option.some.inj madeOwn).symm
  refine ⟨right first (by simp [queued]), ?_⟩
  intro after member
  rcases List.mem_or_eq_of_mem_set member with before | rfl
  · exact carries after before
  · exact ⟨own, made, fun waiting left => right waiting (by simp [queued, left])⟩

theorem Carries.dropReceiver (carries : hub.Carries fits) (receiver : Nat) :
    (hub.dropReceiver receiver).Carries fits := by
  intro after member
  obtain ⟨before, listed, same, unread⟩ := Broadcast.mem_dropReceiver member
  rw [same, unread]
  exact carries before listed

theorem Carries.remove [DecidableEq Key] (carries : hub.Carries fits) (key : Key) :
    (hub.remove key).Carries fits :=
  carries

theorem Carries.channel [DecidableEq Key] (carries : hub.Carries fits) (key : Key) :
    (hub.channel key).1.Carries fits := by
  intro receiver member
  rw [channel_receivers] at member
  obtain ⟨own, made, right⟩ := carries receiver member
  exact ⟨own, extends_channel.keys _ own made, right⟩

theorem Carries.publish [DecidableEq Key] {capacity : Nat} {msg : Msg}
    {publishing : Publishing} (carries : hub.Carries fits)
    (knows : hub.Knows key publishing) (right : fits key msg) :
    (hub.publish capacity key msg publishing).1.Carries fits := by
  cases publishing with
  | looking => exact carries
  | holding sender => exact carries.send (knows sender rfl) right
  | forgetting => exact carries.remove key

/-- A sender that was looked up is the key's. -/
theorem knows_publish [DecidableEq Key] {capacity : Nat} {msg : Msg}
    {publishing next : Publishing}
    (going : (hub.publish capacity key msg publishing).2 = some next) :
    (hub.publish capacity key msg publishing).1.Knows key next := by
  intro sender holding
  subst holding
  cases publishing with
  | looking =>
      obtain ⟨bound, found, same⟩ := Option.map_eq_some_iff.mp going
      obtain rfl := Publishing.holding.inj same
      exact hub.made key bound found
  | holding other =>
      simp only [Hub.publish] at going
      split at going <;> simp at going
  | forgetting => simp [Hub.publish] at going

end Carries

end Hub

end Hermione
