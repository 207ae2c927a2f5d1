import Hermione.HubTasks

/-!
# What a hub delivers

A publish that finds nobody drops the key in a second step, and a subscriber that
comes in between listens on a channel that is no longer in the map: what is
published later does not reach it.  Where that does not happen, every live
receiver gets everything published after it was returned.
-/

namespace Hermione

open Broadcast EventRuns

namespace Hub

variable {Key Msg : Type*}

/-- Receivers keep their places and channels, and the dead stay dead. -/
def Onward (hub later : Hub Key Msg) : Prop :=
  ∀ (index : Nat) (receiver : Receiver Msg), later.receivers[index]? = some receiver →
    ∃ before : Receiver Msg, hub.receivers[index]? = some before ∧
      receiver.channel = before.channel ∧
      (receiver.alive = true → before.alive = true)

theorem Onward.of_eq {hub later : Hub Key Msg} (same : later.receivers = hub.receivers) :
    Onward hub later := by
  intro index receiver found
  exact ⟨receiver, same ▸ found, rfl, id⟩

/-- A receiver still listens on a channel that was made. -/
theorem Onward.lt_opened {hub later : Hub Key Msg} (onward : Onward hub later) {opened : Nat}
    (within : ∀ receiver ∈ hub.receivers, receiver.channel < opened) :
    ∀ receiver ∈ later.receivers, receiver.channel < opened := by
  intro receiver member
  obtain ⟨index, found⟩ := List.getElem?_of_mem member
  obtain ⟨before, there, same, -⟩ := onward index receiver found
  rw [same]
  exact within before (List.mem_of_getElem? there)

theorem onward_send (capacity : Nat) (hub : Hub Key Msg) (sender : Nat) (msg : Msg) :
    Onward hub (hub.send capacity sender msg).1 := by
  intro index receiver found
  change (Broadcast.send capacity hub.receivers sender msg)[index]? = some receiver at found
  rw [getElem?_send, Option.map_eq_some_iff] at found
  obtain ⟨before, there, rfl⟩ := found
  exact ⟨before, there, Receiver.offer_channel, fun alive => Receiver.offer_alive ▸ alive⟩

theorem onward_recv {hub later : Hub Key Msg} {receiver : Nat} {msg : Msg}
    (received : hub.recv receiver = some (msg, later)) : Onward hub later := by
  obtain ⟨⟨first, rest⟩, read, same⟩ := Option.map_eq_some_iff.mp received
  obtain ⟨rfl, rfl⟩ := Prod.mk.inj same
  intro index other found
  by_cases here : index = receiver
  · subst here
    obtain ⟨listening, unread, there, alive, -, rfl⟩ := recv_eq_some_iff.mp read
    have within := (List.getElem?_eq_some_iff.mp there).1
    change (hub.receivers.set index _)[index]? = some other at found
    rw [List.getElem?_set_self within, Option.some.injEq] at found
    exact ⟨listening, there, found ▸ rfl, fun _ => alive⟩
  · have there : hub.receivers[index]? = some other := getElem?_recv read here ▸ found
    exact ⟨other, there, rfl, id⟩

theorem onward_dropReceiver (hub : Hub Key Msg) (receiver : Nat) :
    Onward hub (hub.dropReceiver receiver) := by
  intro index other found
  change (Broadcast.dropReceiver hub.receivers receiver)[index]? = some other at found
  rw [Broadcast.dropReceiver, List.getElem?_modify] at found
  obtain ⟨before, there, rfl⟩ := Option.map_eq_some_iff.mp found
  refine ⟨before, there, ?_, ?_⟩
  · split <;> rfl
  · split
    · intro alive
      cases alive
    · exact id

end Hub

namespace HubWorld

variable {Key Msg : Type*} [DecidableEq Key] {capacity : Nat}

/-- What an event does to the hub. -/
inductive Moved (capacity : Nat) (world : HubWorld Key Msg) :
    Event Key Msg → HubWorld Key Msg → Prop where
  | subscribed {task : Nat} {key : Key} :
      Moved capacity world (.subscribe task key)
        ({ world with hub := (world.hub.channel key).1 }.put task
          (.handed key (world.hub.channel key).2))
  | listened {task sender : Nat} {key : Key} (phase : world.tasks task = .handed key sender) :
      Moved capacity world (.listen task)
        ({ world with hub := (world.hub.listen sender).1 }.put task
          (.subscribed key world.hub.receivers.length))
  | began {task : Nat} {key : Key} {msg : Msg} :
      Moved capacity world (.publish task key msg)
        (world.put task (.publishing key msg .looking world.hub.receivers.length))
  | found {task since sender : Nat} {key : Key} {msg : Msg}
      (phase : world.tasks task = .publishing key msg .looking since)
      (bound : world.hub.channels key = some sender) :
      Moved capacity world (.advance task)
        (world.put task (.publishing key msg (.holding sender) since))
  | sent {task since sender : Nat} {key : Key} {msg : Msg}
      (phase : world.tasks task = .publishing key msg (.holding sender) since) :
      Moved capacity world (.advance task)
        ({ world with hub := (world.hub.send capacity sender msg).1 }.put task
          (if heard world.hub.receivers sender then .over
            else .publishing key msg .forgetting since))
  | forgot {task since : Nat} {key : Key} {msg : Msg}
      (phase : world.tasks task = .publishing key msg .forgetting since) :
      Moved capacity world (.advance task)
        ({ world with hub := world.hub.remove key }.put task .over)
  | ended {event : Event Key Msg} {task : Nat} (quiet : ∀ key, event ≠ .remove key) :
      Moved capacity world event (world.put task .over)
  /-- A receiver read something, or was dropped. -/
  | heeded {event : Event Key Msg} {hub : Hub Key Msg} (quiet : ∀ key, event ≠ .remove key)
      (onward : world.hub.Onward hub) (grown : world.hub.Extends hub)
      (channels : hub.channels = world.hub.channels) (keys : hub.keys = world.hub.keys) :
      Moved capacity world event { world with hub }
  | removed {key : Key} :
      Moved capacity world (.remove key) { world with hub := world.hub.remove key }

theorem moved_of_step {world next : HubWorld Key Msg} {event : Event Key Msg}
    (stepped : step capacity world event = some next) : Moved capacity world event next := by
  cases event with
  | subscribe task key =>
      simp only [step] at stepped
      split at stepped
      · cases stepped
        exact .subscribed
      · cases stepped
  | listen task =>
      simp only [step] at stepped
      split at stepped
      · next phase =>
          cases stepped
          exact .listened phase
      · cases stepped
  | publish task key msg =>
      simp only [step] at stepped
      split at stepped
      · cases stepped
        exact .began
      · cases stepped
  | advance task =>
      simp only [step] at stepped
      split at stepped
      · next key msg phase since going =>
          cases phase with
          | looking =>
              cases bound : world.hub.channels key with
              | none =>
                  simp only [Hub.publish, bound, Option.map_none, Option.some.injEq] at stepped
                  subst stepped
                  exact .ended fun _ same => by cases same
              | some sender =>
                  simp only [Hub.publish, bound, Option.map_some, Option.some.injEq] at stepped
                  subst stepped
                  exact .found going bound
          | holding sender =>
              have sent : Moved capacity world (.advance task) _ := .sent going
              cases listening : heard world.hub.receivers sender with
              | true =>
                  simp only [Hub.publish, Hub.send, listening, if_true, Option.some.injEq]
                    at stepped
                  rw [listening, if_pos rfl] at sent
                  exact stepped ▸ sent
              | false =>
                  simp only [Hub.publish, Hub.send, listening, Bool.false_eq_true, if_false,
                    Option.some.injEq] at stepped
                  rw [listening, if_neg Bool.false_ne_true] at sent
                  exact stepped ▸ sent
          | forgetting =>
              cases stepped
              exact .forgot going
      · cases stepped
  | cancel task =>
      simp only [step] at stepped
      split at stepped
      all_goals cases stepped
      all_goals exact .ended fun _ same => by cases same
  | recv receiver =>
      obtain ⟨⟨msg, hub⟩, received, rfl⟩ := Option.map_eq_some_iff.mp stepped
      have onward := Hub.onward_recv received
      have grown := Hub.extends_recv received
      obtain ⟨⟨first, rest⟩, read, same⟩ := Option.map_eq_some_iff.mp received
      obtain ⟨rfl, rfl⟩ := Prod.mk.inj same
      exact .heeded (fun _ same => by cases same) onward grown rfl rfl
  | dropReceiver receiver =>
      cases stepped
      exact .heeded (fun _ same => by cases same) (Hub.onward_dropReceiver _ _)
        (Hub.extends_dropReceiver _) rfl rfl
  | remove key =>
      cases stepped
      exact .removed

/-! ### What tasks know -/

/-- Whatever a task or a receiver refers to was made. -/
structure Known (world : HubWorld Key Msg) : Prop where
  receivers : ∀ receiver ∈ world.hub.receivers, receiver.channel < world.hub.opened
  handed : ∀ task key sender, world.tasks task = .handed key sender →
    world.hub.keys[sender]? = some key
  since : ∀ task key msg phase since, world.tasks task = .publishing key msg phase since →
    since ≤ world.hub.receivers.length

omit [DecidableEq Key] in
theorem known_start : (start : HubWorld Key Msg).Known :=
  ⟨nofun, nofun, nofun⟩

omit [DecidableEq Key] in
/-- A task that goes on to a phase that is right leaves the rest as it was. -/
theorem Known.put {world : HubWorld Key Msg} {task : Nat} {phase : HubTask Key Msg}
    (known : world.Known)
    (handed : ∀ key sender, phase = .handed key sender → world.hub.keys[sender]? = some key)
    (since : ∀ key msg publishing since, phase = .publishing key msg publishing since →
      since ≤ world.hub.receivers.length) : (world.put task phase).Known := by
  constructor
  · exact known.receivers
  · intro other key sender going
    change Function.update world.tasks task phase other = _ at going
    rw [Function.update_apply] at going
    split at going
    · exact handed key sender going
    · exact known.handed other key sender going
  · intro other key msg publishing began going
    change Function.update world.tasks task phase other = _ at going
    rw [Function.update_apply] at going
    split at going
    · exact since key msg publishing began going
    · exact known.since other key msg publishing began going

omit [DecidableEq Key] in
theorem Known.over {world : HubWorld Key Msg} {task : Nat} (known : world.Known) :
    (world.put task .over).Known := by
  apply known.put
  · intro _ _ same
    cases same
  · intro _ _ _ _ same
    cases same

omit [DecidableEq Key] in
/-- A hub that has what the one before it had, and no receivers on unknown channels. -/
theorem Known.extend {world : HubWorld Key Msg} {hub : Hub Key Msg} (known : world.Known)
    (grown : world.hub.Extends hub)
    (receivers : ∀ receiver ∈ hub.receivers, receiver.channel < hub.opened) :
    { world with hub }.Known := by
  constructor
  · exact receivers
  · intro task key sender going
    exact grown.keys sender key (known.handed task key sender going)
  · intro task key msg publishing began going
    have before := known.since task key msg publishing began going
    change began ≤ hub.receivers.length
    by_contra! short
    have within : hub.receivers.length < world.hub.receivers.length := by omega
    obtain ⟨other, found, -⟩ := grown.receivers _ _ (List.getElem?_eq_getElem within)
    have : hub.receivers.length < hub.receivers.length := (List.getElem?_eq_some_iff.mp found).1
    omega

theorem known_step {world next : HubWorld Key Msg} {event : Event Key Msg} (known : world.Known)
    (stepped : step capacity world event = some next) : next.Known := by
  cases moved_of_step stepped with
  | @subscribed task key =>
      have wider : Hub.Extends world.hub (world.hub.channel key).1 := world.hub.extends_channel
      have grown := known.extend wider (by
        intro receiver member
        rw [Hub.channel_receivers] at member
        exact Nat.lt_of_lt_of_le (known.receivers receiver member) Hub.opened_le_channel)
      apply grown.put
      · intro other sender same
        cases same
        exact Hub.channel_made
      · intro _ _ _ _ same
        cases same
  | @listened task sender key phase =>
      have made := known.handed task key sender phase
      have grown := known.extend (Hub.extends_listen sender) (by
        intro receiver member
        rcases List.mem_append.mp member with before | new
        · exact known.receivers receiver before
        · rw [List.mem_singleton.mp new]
          exact (List.getElem?_eq_some_iff.mp made).1)
      apply grown.put
      · intro _ _ same
        cases same
      · intro _ _ _ _ same
        cases same
  | began =>
      apply known.put
      · intro _ _ same
        cases same
      · intro other msg publishing since same
        cases same
        exact Nat.le_refl _
  | found phase bound =>
      apply known.put
      · intro _ _ same
        cases same
      · intro other msg publishing since same
        cases same
        exact known.since _ _ _ _ _ phase
  | @sent task since sender key msg phase =>
      have grown := known.extend (Hub.extends_send capacity sender msg)
        ((Hub.onward_send capacity world.hub sender msg).lt_opened known.receivers)
      apply grown.put
      · intro other holding same
        split at same <;> cases same
      · intro other holding publishing began same
        split at same
        · cases same
        · cases same
          have before := known.since _ _ _ _ _ phase
          simpa [Hub.send] using before
  | forgot phase => exact (known.extend Hub.extends_remove known.receivers).over
  | ended quiet => exact known.over
  | heeded quiet onward grown channels keys =>
      apply known.extend grown
      have opened : Hub.opened _ = world.hub.opened := congrArg List.length keys
      rw [opened]
      exact onward.lt_opened known.receivers
  | removed => exact known.extend Hub.extends_remove known.receivers

/-! ### Who is live -/

/-- A receiver that is live after a step was live before it, or was made by it. -/
theorem live_of_step {world next : HubWorld Key Msg} {event : Event Key Msg} (known : world.Known)
    (stepped : step capacity world event = some next) {key : Key} {index : Nat}
    {receiver : Receiver Msg} (live : next.Live key index receiver) :
    (∃ before, world.Live key index before ∧ receiver.channel = before.channel) ∨
      index = world.hub.receivers.length ∧ ∃ task, event = .listen task ∧
        world.tasks task = .handed key receiver.channel := by
  obtain ⟨found, alive, made⟩ := live
  have onward_case : ∀ hub : Hub Key Msg, next.hub = hub → world.hub.Onward hub →
      hub.keys = world.hub.keys →
      ∃ before, world.Live key index before ∧ receiver.channel = before.channel := by
    rintro hub rfl onward keys
    obtain ⟨before, there, same, stays⟩ := onward index receiver found
    exact ⟨before, ⟨there, stays alive, by rw [← same, ← keys]; exact made⟩, same⟩
  cases moved_of_step stepped with
  | @subscribed task other =>
      left
      change (world.hub.channel other).1.receivers[index]? = some receiver at found
      rw [Hub.channel_receivers] at found
      have within := known.receivers receiver (List.mem_of_getElem? found)
      have before :=
        List.getElem?_eq_getElem (show receiver.channel < world.hub.keys.length from within)
      have wider : Hub.Extends world.hub (world.hub.channel other).1 := world.hub.extends_channel
      have later := wider.keys _ _ before
      refine ⟨receiver, ⟨found, alive, ?_⟩, rfl⟩
      rw [before, ← later]
      exact made
  | @listened task sender other phase =>
      by_cases early : index < world.hub.receivers.length
      · left
        change (world.hub.receivers ++ [Receiver.fresh sender])[index]? = some receiver at found
        rw [List.getElem?_append_left early] at found
        exact ⟨receiver, ⟨found, alive, made⟩, rfl⟩
      · right
        change (world.hub.receivers ++ [Receiver.fresh sender])[index]? = some receiver at found
        have within := (List.getElem?_eq_some_iff.mp found).1
        have here : index = world.hub.receivers.length := by
          rw [List.length_append, List.length_singleton] at within
          omega
        subst here
        rw [List.getElem?_concat_length, Option.some.injEq] at found
        subst found
        have own := known.handed task other sender phase
        obtain rfl : other = key := Option.some.inj (own.symm.trans made)
        exact ⟨rfl, task, rfl, phase⟩
  | began => exact .inl (onward_case world.hub rfl (.of_eq rfl) rfl)
  | found phase bound => exact .inl (onward_case world.hub rfl (.of_eq rfl) rfl)
  | sent phase => exact .inl (onward_case _ rfl (Hub.onward_send _ _ _ _) rfl)
  | forgot phase => exact .inl (onward_case _ rfl (.of_eq rfl) rfl)
  | ended quiet => exact .inl (onward_case _ rfl (.of_eq rfl) rfl)
  | heeded quiet onward grown channels keys => exact .inl (onward_case _ rfl onward keys)
  | removed => exact .inl (onward_case _ rfl (.of_eq rfl) rfl)

omit [DecidableEq Key] in
/-- Somebody listens on a key that a live receiver's channel is bound to. -/
theorem isListening_of_live {world : HubWorld Key Msg} {key : Key} {index : Nat}
    {receiver : Receiver Msg} (live : world.Live key index receiver)
    (bound : world.hub.channels key = some receiver.channel) :
    world.hub.isListening key = true := by
  rw [Hub.isListening, bound]
  apply List.any_eq_true.mpr
  refine ⟨receiver, List.mem_of_getElem? live.1, ?_⟩
  simp [Receiver.listensOn, live.2.1]

/-- A step that meets the condition drops no channel of a live receiver. -/
theorem kept_step {world next : HubWorld Key Msg} {event : Event Key Msg} {key : Key}
    (known : world.Known) (kept : world.Kept key) (untouched : event ≠ .remove key)
    (orderly : world.Orderly key event) (stepped : step capacity world event = some next) :
    next.Kept key := by
  intro index receiver live
  have bound : world.hub.channels key = some receiver.channel := by
    rcases live_of_step known stepped live with ⟨before, living, same⟩ | ⟨-, task, rfl, handed⟩
    · rw [same]
      exact kept index before living
    · exact orderly _ handed
  cases moved_of_step stepped with
  | subscribed => exact Hub.channel_channels_of_eq_some bound
  | listened phase => exact bound
  | began => exact bound
  | found phase found => exact bound
  | sent phase => exact bound
  | @forgot task since other msg phase =>
      by_cases same : other = key
      · subst same
        rcases live_of_step known stepped live with ⟨before, living, same⟩ | ⟨-, _, wrong, -⟩
        · have silent := orderly msg since phase
          rw [isListening_of_live living (same ▸ bound)] at silent
          cases silent
        · cases wrong
      · exact (Hub.remove_channels_of_ne (Ne.symm same)).trans bound
  | ended quiet => exact bound
  | heeded quiet onward grown channels keys => exact (congrFun channels key).trans bound
  | @removed other =>
      have different : key ≠ other := by
        rintro rfl
        exact untouched rfl
      exact (Hub.remove_channels_of_ne different).trans bound

/-- A step that drops no channel of a live receiver meets the condition. -/
theorem orderly_of_kept {world next : HubWorld Key Msg} {event : Event Key Msg} {key : Key}
    (known : world.Known) (kept : next.Kept key)
    (stepped : step capacity world event = some next) : world.Orderly key event := by
  cases event with
  | listen task =>
      intro sender phase
      have made := known.handed task key sender phase
      simp only [step, phase, Option.some.injEq] at stepped
      subst stepped
      apply kept world.hub.receivers.length (Receiver.fresh sender)
      exact ⟨List.getElem?_concat_length, rfl, made⟩
  | advance task =>
      intro msg since phase
      simp only [step, phase, Hub.publish, Option.some.injEq] at stepped
      subst stepped
      rw [Hub.isListening]
      split
      · next sender bound =>
          by_contra listening
          rw [Bool.not_eq_false] at listening
          obtain ⟨receiver, member, listens⟩ := List.any_eq_true.mp listening
          simp only [Receiver.listensOn, Bool.and_eq_true, beq_iff_eq] at listens
          obtain ⟨index, found⟩ := List.getElem?_of_mem member
          have made := world.hub.made key sender bound
          have still := kept index receiver ⟨found, listens.1, listens.2 ▸ made⟩
          change (world.hub.remove key).channels key = _ at still
          rw [Hub.remove_channels_self] at still
          cases still
      · rfl
  | _ => trivial

/-! ### Where messages go -/

/-- A publish about to send has the sender that the earlier receivers listen to. -/
def Aims (key : Key) (world : HubWorld Key Msg) : Prop :=
  ∀ task msg sender since, world.tasks task = .publishing key msg (.holding sender) since →
    ∀ index receiver, index < since → world.Live key index receiver →
      receiver.channel = sender

theorem aims_step {world next : HubWorld Key Msg} {event : Event Key Msg} {key : Key}
    (known : world.Known) (kept : world.Kept key) (aims : world.Aims key)
    (stepped : step capacity world event = some next) : next.Aims key := by
  intro task msg sender since phase index receiver early live
  -- a receiver made only now is not one of those that came before the publish
  have earlier : ∀ publishing, world.tasks task = .publishing key msg publishing since →
      ∃ before, world.Live key index before ∧ receiver.channel = before.channel := by
    intro publishing going
    rcases live_of_step known stepped live with before | ⟨here, -⟩
    · exact before
    · have := known.since task key msg publishing since going
      omega
  have unmoved : world.tasks task = .publishing key msg (.holding sender) since →
      receiver.channel = sender := by
    intro going
    obtain ⟨before, living, same⟩ := earlier _ going
    exact same.trans (aims task msg sender since going index before early living)
  have elsewhere : ∀ other changed, next.tasks = Function.update world.tasks other changed →
      (∀ sender, changed ≠ .publishing key msg (.holding sender) since) →
      receiver.channel = sender := by
    intro other changed tasks quiet
    rw [tasks, Function.update_apply] at phase
    split at phase
    · exact absurd phase (quiet sender)
    · exact unmoved phase
  cases moved_of_step stepped with
  | subscribed => exact elsewhere _ _ rfl nofun
  | listened => exact elsewhere _ _ rfl nofun
  | began => exact elsewhere _ _ rfl nofun
  | @found other began bound _ _ going found =>
      change Function.update world.tasks other _ task = _ at phase
      rw [Function.update_apply] at phase
      split at phase
      · next same =>
          subst same
          cases phase
          obtain ⟨before, living, same⟩ := earlier _ going
          have := kept index before living
          rw [found] at this
          rw [same, Option.some.inj this]
      · exact unmoved phase
  | sent =>
      apply elsewhere _ _ rfl
      intro holding
      split <;> nofun
  | forgot => exact elsewhere _ _ rfl nofun
  | ended => exact elsewhere _ _ rfl nofun
  | heeded => exact unmoved phase
  | removed => exact unmoved phase

/-- A call that holds a sender sends on it. -/
theorem step_of_holding (capacity : Nat) {world : HubWorld Key Msg} {task sender since : Nat}
    {key : Key} {msg : Msg}
    (going : world.tasks task = .publishing key msg (.holding sender) since) :
    ∃ next, step capacity world (.advance task) = some next ∧
      next.hub = (world.hub.send capacity sender msg).1 := by
  simp only [step, going, Hub.publish]
  split
  all_goals
    rename_i sent
    obtain ⟨rfl, -⟩ := Prod.mk.inj sent
    exact ⟨_, rfl, rfl⟩

theorem delivers_of_kept {world : HubWorld Key Msg} {key : Key} (kept : world.Kept key)
    (aims : world.Aims key) (event : Event Key Msg) : world.Delivers capacity key event := by
  cases event with
  | advance task =>
      intro msg phase since going index receiver early live
      cases phase with
      | looking =>
          intro none
          exact Option.some_ne_none _ ((kept index receiver live).symm.trans none)
      | holding sender =>
          obtain ⟨next, stepped, hub⟩ := step_of_holding capacity going
          have here := aims task msg sender since going index receiver early live
          refine ⟨next, receiver.offer capacity sender msg, stepped, ?_, Receiver.got_offer ?_⟩
          · rw [hub]
            simp [Hub.send, live.1]
          · simp [Receiver.listensOn, live.2.1, here]
      | forgetting => trivial
  | _ => trivial

/-- In a run in which the key is not removed outright, no live receiver's channel is
ever dropped and every message is put into the channels of the receivers that were
there before its publish began, exactly when every step of the run is orderly. -/
theorem delivers_iff_orderly {key : Key} {events : List (Event Key Msg)}
    {final : HubWorld Key Msg} (untouched : ∀ event ∈ events, event ≠ .remove key)
    (ran : run (step capacity) start events = some final) :
    Throughout (step capacity) (Kept key) start events ∧
        Guarded (step capacity) (Delivers capacity key) start events ↔
      Guarded (step capacity) (Orderly key) start events := by
  have same : Guarded (step capacity) (Orderly key) start events ↔
      Throughout (step capacity) (Kept key) start events := by
    apply guarded_iff_throughout Known
    · intro world event next
      exact known_step
    · intro world event next known kept allowed orderly
      exact kept_step known kept allowed orderly
    · intro world event next
      exact orderly_of_kept
    · exact known_start
    · nofun
    · exact untouched
    · exact ran
  rw [same]
  constructor
  · exact And.left
  · intro kept
    refine ⟨kept, ?_⟩
    apply kept.guarded fun world => world.Known ∧ world.Aims key
    · rintro world event next ⟨known, aims⟩ kept stepped
      exact ⟨known_step known stepped, aims_step known kept aims stepped⟩
    · rintro world event ⟨-, aims⟩ kept
      exact delivers_of_kept kept aims event
    · exact ⟨known_start, nofun⟩

/-- A subscriber listens, and what is published then is what it has to read. -/
theorem delivers_iff_orderly_heard :
    let events : List (Event Nat Nat) :=
      [.subscribe 0 7, .listen 0, .publish 1 7 5, .advance 1, .advance 1]
    ((run (step 16) start events).map fun final => final.hub.receivers.map Receiver.unread) =
        some [[5]] ∧
      Throughout (step 16) (Kept 7) start events ∧
      Guarded (step 16) (Delivers 16 7) start events := by
  refine ⟨rfl, (delivers_iff_orderly (by simp) rfl).mpr ?_⟩
  have listened (sender : Nat)
      (phase : HubTask.handed 7 0 = (HubTask.handed 7 sender : HubTask Nat Nat)) :
      some 0 = some sender := by
    cases phase
    rfl
  exact .cons trivial rfl <| .cons listened rfl <| .cons trivial rfl <|
    .cons (fun _ _ phase => by cases phase) rfl <|
    .cons (fun _ _ phase => by cases phase) rfl trivial

/-- A publisher finds nobody and is about to drop the key when a subscriber, who was
handed the same sender, makes its receiver. -/
def forgotten : List (Event Nat Nat) :=
  [.subscribe 0 7, .publish 1 7 5, .advance 1, .advance 1, .listen 0, .advance 1,
    .publish 2 7 6, .advance 2]

/-- What is published later never reaches that receiver. -/
theorem not_delivers_forgotten :
    (∀ event ∈ forgotten, event ≠ .remove 7) ∧
      ((run (step 16) start forgotten).map fun final => final.hub.receivers) =
        some [Receiver.fresh 0] ∧
      ¬ Throughout (step 16) (Kept 7) start forgotten ∧
      ¬ Guarded (step 16) (Delivers 16 7) start forgotten := by
  refine ⟨by simp [forgotten], rfl, ?_, ?_⟩
  · intro kept
    have last := (((((((kept.2 _ rfl).2 _ rfl).2 _ rfl).2 _ rfl).2 _ rfl).2 _ rfl).2 _ rfl).head
    have bound := last 0 (Receiver.fresh 0) ⟨rfl, rfl, rfl⟩
    exact absurd bound (by decide)
  · intro delivers
    have last := (((((((delivers.2 _ rfl).2 _ rfl).2 _ rfl).2 _ rfl).2 _ rfl).2 _ rfl).2 _ rfl).1
    exact last 6 .looking 1 rfl 0 (Receiver.fresh 0) (by decide) ⟨rfl, rfl, rfl⟩ rfl

end HubWorld

end Hermione
