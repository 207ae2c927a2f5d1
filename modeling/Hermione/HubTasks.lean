import Hermione.EventRuns
import Hermione.Hub

/-!
# Tasks on a hub

Any number of tasks subscribe to a hub and publish to it.  A subscriber takes the
key's sender from the map and makes its receiver afterwards; a call of `publish`
looks the sender up, sends, and drops the key in a step of its own when nobody
was listening.  Each event is what one task does between two of its awaits.
-/

namespace Hermione

open Broadcast EventRuns

/-- How far a task is. -/
inductive HubTask (Key Msg : Type*) where
  | idle
  /-- `subscribe` has taken the key's sender and not made a receiver of it. -/
  | handed (key : Key) (sender : Nat)
  | subscribed (key : Key) (receiver : Nat)
  /-- A call of `publish`, and how many receivers there were when it began. -/
  | publishing (key : Key) (msg : Msg) (phase : Publishing) (since : Nat)
  /-- The call returned, or nobody awaits it any more. -/
  | over

/-- The hub and its tasks. -/
structure HubWorld (Key Msg : Type*) where
  hub : Hub Key Msg
  tasks : Nat → HubTask Key Msg

namespace HubWorld

variable {Key Msg : Type*}

def start : HubWorld Key Msg :=
  { hub := .empty, tasks := fun _ => .idle }

def put (world : HubWorld Key Msg) (task : Nat) (phase : HubTask Key Msg) : HubWorld Key Msg :=
  { world with tasks := Function.update world.tasks task phase }

inductive Event (Key Msg : Type*) where
  | subscribe (task : Nat) (key : Key)
  /-- The subscriber makes its receiver. -/
  | listen (task : Nat)
  | publish (task : Nat) (key : Key) (msg : Msg)
  /-- The next step of a call of `publish`. -/
  | advance (task : Nat)
  /-- Nobody awaits the task's call any more. -/
  | cancel (task : Nat)
  | recv (receiver : Nat)
  | dropReceiver (receiver : Nat)
  | remove (key : Key)

variable [DecidableEq Key]

def step (capacity : Nat) (world : HubWorld Key Msg) :
    Event Key Msg → Option (HubWorld Key Msg)
  | .subscribe task key =>
      match world.tasks task with
      | .idle =>
          let (hub, sender) := world.hub.channel key
          some ({ world with hub }.put task (.handed key sender))
      | _ => none
  | .listen task =>
      match world.tasks task with
      | .handed key sender =>
          let (hub, receiver) := world.hub.listen sender
          some ({ world with hub }.put task (.subscribed key receiver))
      | _ => none
  | .publish task key msg =>
      match world.tasks task with
      | .idle => some (world.put task (.publishing key msg .looking world.hub.receivers.length))
      | _ => none
  | .advance task =>
      match world.tasks task with
      | .publishing key msg phase since =>
          match world.hub.publish capacity key msg phase with
          | (hub, some next) => some ({ world with hub }.put task (.publishing key msg next since))
          | (hub, none) => some ({ world with hub }.put task .over)
      | _ => none
  | .cancel task =>
      match world.tasks task with
      | .handed _ _ | .publishing _ _ _ _ => some (world.put task .over)
      | _ => none
  | .recv receiver => (world.hub.recv receiver).map fun (_, hub) => { world with hub }
  | .dropReceiver receiver => some { world with hub := world.hub.dropReceiver receiver }
  | .remove key => some { world with hub := world.hub.remove key }

/-! ### What is claimed of a hub -/

/-- A receiver somebody still has, and its key. -/
def Live (world : HubWorld Key Msg) (key : Key) (index : Nat) (receiver : Receiver Msg) : Prop :=
  world.hub.receivers[index]? = some receiver ∧ receiver.alive = true ∧
    world.hub.keys[receiver.channel]? = some key

/-- No live receiver's channel was dropped from the map. -/
def Kept (key : Key) (world : HubWorld Key Msg) : Prop :=
  ∀ index receiver, world.Live key index receiver →
    world.hub.channels key = some receiver.channel

/-- A call of `publish` puts its message into the channel of every live receiver that
was returned before it began: it finds a channel as long as there is such a receiver,
and after it sent each of them has got the message. -/
def Delivers (capacity : Nat) (key : Key) (world : HubWorld Key Msg) : Event Key Msg → Prop
  | .advance task =>
      ∀ msg phase since, world.tasks task = .publishing key msg phase since →
        ∀ index receiver, index < since → world.Live key index receiver →
          match phase with
          | .looking => world.hub.channels key ≠ none
          | .holding _ =>
              ∃ next after, step capacity world (.advance task) = some next ∧
                next.hub.receivers[index]? = some after ∧ receiver.Got capacity msg after
          | .forgetting => True
  | _ => True

/-- The two steps that can go wrong don't: a publish drops no channel that someone
listens on, and a subscriber listens on the channel that the map holds. -/
def Orderly (key : Key) (world : HubWorld Key Msg) : Event Key Msg → Prop
  | .advance task =>
      ∀ msg since, world.tasks task = .publishing key msg .forgetting since →
        world.hub.isListening key = false
  | .listen task =>
      ∀ sender, world.tasks task = .handed key sender → world.hub.channels key = some sender
  | _ => True

end HubWorld

end Hermione
