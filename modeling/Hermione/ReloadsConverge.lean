import Hermione.OneSocket
import Hermione.PercentEncoding

/-!
# What overlapping reloads leave

A reload applies what it has read in several steps, and at its end replaces the socket
if the connection key is no longer what it was at the reload's begin.  If reloads apply
in the order in which they were started, and none of those that overlap takes back
what another has connected under, the last one's settings are applied in the end and
the socket is subscribed under them.
-/

namespace Hermione

open EventRuns

namespace Subscription

/-- Every field is that of an earlier subscription or of the current one. -/
structure Mixes (under earlier now : Subscription) : Prop where
  serverUrl : under.serverUrl = earlier.serverUrl ∨ under.serverUrl = now.serverUrl
  token : under.token = earlier.token ∨ under.token = now.token
  authProvider : under.authProvider = earlier.authProvider ∨ under.authProvider = now.authProvider
  student : under.student = earlier.student ∨ under.student = now.student

variable {earlier now under : Subscription}

theorem mixes_earlier : earlier.Mixes earlier now :=
  ⟨.inl rfl, .inl rfl, .inl rfl, .inl rfl⟩

/-- What is chosen of two that were chosen each of two others. -/
theorem eq_or_eq_of_mixes {α : Type} {first second left right chosen : α}
    (first_of : first = left ∨ first = right) (second_of : second = left ∨ second = right)
    (chosen_of : chosen = first ∨ chosen = second) : chosen = left ∨ chosen = right := by
  rcases chosen_of with rfl | rfl
  · exact first_of
  · exact second_of

theorem Mixes.trans {first second : Subscription} (mixes : under.Mixes first second)
    (left : first.Mixes earlier now) (right : second.Mixes earlier now) :
    under.Mixes earlier now where
  serverUrl := eq_or_eq_of_mixes left.serverUrl right.serverUrl mixes.serverUrl
  token := eq_or_eq_of_mixes left.token right.token mixes.token
  authProvider := eq_or_eq_of_mixes left.authProvider right.authProvider mixes.authProvider
  student := eq_or_eq_of_mixes left.student right.student mixes.student

theorem Mixes.eq (mixes : under.Mixes now now) : under = now := by
  ext1
  · exact mixes.serverUrl.elim id id
  · exact mixes.token.elim id id
  · exact mixes.authProvider.elim id id
  · exact mixes.student.elim id id

/-- None of the texts has a line break in it. -/
structure OneLine (under : Subscription) : Prop where
  serverUrl : '\n' ∉ under.serverUrl
  token : '\n' ∉ under.token
  authProvider : '\n' ∉ under.authProvider
  student : '\n' ∉ under.student

/-- Then the key tells them apart. -/
theorem key_inj {other : Subscription} (clean : OneLine under) (clean' : OneLine other)
    (same : under.key = other.key) : under = other := by
  have split : ∀ {under : Subscription}, OneLine under →
      Str.split '\n' under.key =
        [under.serverUrl, under.token, under.authProvider, under.student] := by
    intro under clean
    apply Str.split_intercalate (List.cons_ne_nil _ _)
    simp only [List.mem_cons, List.not_mem_nil, or_false]
    rintro piece (rfl | rfl | rfl | rfl)
    · exact clean.serverUrl
    · exact clean.token
    · exact clean.authProvider
    · exact clean.student
  have pieces := congrArg (Str.split '\n') same
  rw [split clean, split clean'] at pieces
  simp only [List.cons.injEq, and_true] at pieces
  obtain ⟨serverUrl, token, authProvider, student⟩ := pieces
  exact Subscription.ext serverUrl token authProvider student

end Subscription

namespace MessageLink

open Subscription

/-- Socket and connection under way are, field by field, under an earlier subscription
or the current one. -/
structure Subscribed (link : MessageLink) (earlier now : Subscription) : Prop where
  socket : ∀ ws socket, link.socket = some ws → link.sockets[ws]? = some socket →
    socket.under.Mixes earlier now ∧
      ∀ serverUrl authProvider, socket.identity = some (serverUrl, authProvider) →
        (serverUrl = earlier.serverUrl ∨ serverUrl = now.serverUrl) ∧
          (authProvider = earlier.authProvider ∨ authProvider = now.authProvider)
  attempts : ∀ attempt ∈ link.attempts, attempt.generation = link.socketGeneration →
    (attempt.token = earlier.token ∨ attempt.token = now.token) ∧
      (attempt.authProvider = earlier.authProvider ∨ attempt.authProvider = now.authProvider)

variable {link : MessageLink} {earlier now : Subscription}

theorem Idle.subscribed (idle : Idle link) : Subscribed link earlier now where
  socket ws _ held := by cases idle.socket.symm.trans held
  attempts attempt member same := absurd same (idle.outdated attempt member).ne

theorem Subscribed.mono {earlier' now' : Subscription} (subscribed : Subscribed link earlier now)
    (left : earlier.Mixes earlier' now') (right : now.Mixes earlier' now') :
    Subscribed link earlier' now' := by
  constructor
  · intro ws socket held found
    obtain ⟨mixes, identity⟩ := subscribed.socket ws socket held found
    refine ⟨mixes.trans left right, fun serverUrl authProvider own => ?_⟩
    obtain ⟨server, provider⟩ := identity serverUrl authProvider own
    exact ⟨eq_or_eq_of_mixes left.serverUrl right.serverUrl server,
      eq_or_eq_of_mixes left.authProvider right.authProvider provider⟩
  · intro attempt member current
    obtain ⟨token, provider⟩ := subscribed.attempts attempt member current
    exact ⟨eq_or_eq_of_mixes left.token right.token token,
      eq_or_eq_of_mixes left.authProvider right.authProvider provider⟩

theorem Subscribed.setWs (subscribed : Subscribed link earlier now) {ws : Nat}
    {change : Ws → Ws} (same : ∀ socket, (change socket).under = socket.under ∧
      (change socket).identity = socket.identity) :
    Subscribed (link.setWs ws change) earlier now := by
  constructor
  · intro other socket held found
    unfold MessageLink.setWs at found
    dsimp only at found
    rw [List.getElem?_modify] at found
    obtain ⟨before, was, rfl⟩ := Option.map_eq_some_iff.mp found
    have known := subscribed.socket other before held was
    split
    · rwa [(same before).1, (same before).2]
    · exact known
  · exact subscribed.attempts

/-- A connection is begun with the current token and provider. -/
theorem Subscribed.connectMessages (subscribed : Subscribed link earlier now) (sole : Sole link) :
    Subscribed (link.connectMessages now.token now.authProvider) earlier now := by
  unfold MessageLink.connectMessages
  split
  · exact subscribed
  · constructor
    · exact subscribed.socket
    · intro attempt member current
      rcases List.mem_append.mp member with before | added
      · have older := sole.generations attempt before
        dsimp only at current
        omega
      · rw [List.mem_singleton.mp added]
        exact ⟨.inr rfl, .inr rfl⟩

theorem subscribed_reconnectMessages (sole : Sole link) (earlier now : Subscription) :
    Subscribed (link.reconnectMessages now.token now.authProvider) earlier now := by
  have idle := idle_closeSocket sole
  have unsubscribed : Idle
      { link.closeSocket with reconnectTimer := false, reconnectAttempts := 0 } :=
    ⟨idle.socket, idle.outdated⟩
  exact unsubscribed.subscribed.connectMessages (sole.closeSocket.unarm 0)

theorem Subscribed.scheduleReconnect (subscribed : Subscribed link earlier now) :
    Subscribed link.scheduleReconnect earlier now := by
  unfold MessageLink.scheduleReconnect
  split
  · exact subscribed
  · exact ⟨subscribed.socket, subscribed.attempts⟩

/-- A socket is opened under the current server and student. -/
theorem Subscribed.authenticated (subscribed : Subscribed link earlier now) {attempt : Attempt}
    (awaits : attempt ∈ link.attempts) {identity : Option (Str × Str)} {constructed : Bool}
    (current : attempt.generation = link.socketGeneration → ∀ exchanged,
      identity = some exchanged → exchanged = (now.serverUrl, now.authProvider)) :
    Subscribed (link.authenticated attempt now.serverUrl now.student identity constructed) earlier
      now := by
  have rest : Subscribed { link with attempts := link.attempts.erase attempt } earlier now :=
    ⟨subscribed.socket, fun other left => subscribed.attempts other (List.mem_of_mem_erase left)⟩
  unfold MessageLink.authenticated
  dsimp only
  split
  · exact rest
  · next fresh =>
      simp only [ne_eq, decide_not, Bool.or_eq_true, Bool.not_eq_true', decide_eq_false_iff_not,
        not_or, Bool.not_eq_false, not_not] at fresh
      split
      · constructor
        · rintro ws socket ⟨⟩ found
          dsimp only at found
          rw [List.getElem?_concat_length] at found
          cases found
          obtain ⟨token, provider⟩ := subscribed.attempts attempt awaits fresh.2
          refine ⟨⟨.inr rfl, token, provider, .inr rfl⟩, fun serverUrl authProvider own => ?_⟩
          cases current fresh.2 _ own
          exact ⟨.inr rfl, .inr rfl⟩
        · exact rest.attempts
      · exact rest.scheduleReconnect

theorem Subscribed.closed (subscribed : Subscribed link earlier now) (ws : Nat) :
    Subscribed (link.closed ws) earlier now := by
  have marked : Subscribed (link.setWs ws fun ws => { ws with closed := true }) earlier now :=
    subscribed.setWs fun socket => ⟨rfl, rfl⟩
  unfold MessageLink.closed
  dsimp only
  split
  · exact marked
  · apply Subscribed.scheduleReconnect
    exact ⟨nofun, marked.attempts⟩

end MessageLink

namespace Extension

open Subscription MessageLink

variable {Rules : Type}

/-! ### What is to hold, and when it does -/

section Statements

variable (state : Extension Rules)

/-- No reload is in flight. -/
def Quiet : Prop :=
  ∀ (i : Nat) (reload : Reload Rules), state.reloads[i]? = some reload → reload.inFlight = false

/-- The reload that was started last. -/
def Last (i : Nat) (last : Reload Rules) : Prop :=
  state.reloads[i]? = some last ∧ i + 1 = state.reloads.length

/-- The socket is subscribed under the current settings, and what is on the way to one
will be. -/
def Connected : Prop :=
  Subscribed state.link state.applied.subscription state.applied.subscription

/-- What the reload started last has read is applied, and the socket was opened under
the current server, token, provider and student. -/
structure Converged : Prop where
  read : ∀ i last, Last state i last →
    last.read = some (state.applied.rules, state.applied.connection) ∧
      last.student = some state.applied.student
  socket : ∀ ws socket, state.link.socket = some ws → state.link.sockets[ws]? = some socket →
    socket.under = state.applied.subscription ∧
      ∀ exchanged, socket.identity = some exchanged →
        exchanged = (state.applied.connection.serverUrl, state.applied.connection.authProvider)

/-- Another reload is in flight. -/
def Busy (reload : Nat) : Prop :=
  ∃ i other, i ≠ reload ∧ state.reloads[i]? = some other ∧ other.inFlight = true

/-- What the steps of overlapping reloads must keep to.  A reload applies nothing else
after the one started last has applied.  The last one to end, if it finds the key that it
began with, was alone all the time (and the key tells), or has left the connection as it
ought to be.  And an identity is used where it was exchanged. -/
def Orderly : Event Rules → Prop
  | .load reload rules inputs =>
      reload + 1 = state.reloads.length ∨ ∀ i last, Last state i last → last.read ≠ none →
        rules = state.applied.rules ∧ inputs.connection = state.applied.connection
  | .name reload gitEmail =>
      reload + 1 = state.reloads.length ∨ ∀ i last, Last state i last → last.student ≠ none →
        ∀ call inputs, state.reloads[reload]? = some call → call.phase = .naming inputs →
          (resolveStudent inputs gitEmail).1 = state.applied.student
  | .fail reload rules =>
      reload + 1 ≠ state.reloads.length ∧
        (∀ i last, Last state i last → last.read ≠ none →
          rules.getD state.applied.rules = state.applied.rules) ∧
        (Busy state reload ∨ state.link.enabled = false ∨ Connected state)
  | .finish reload =>
      Busy state reload ∨ state.link.enabled = false ∨ Connected state ∨
        ∀ call, state.reloads[reload]? = some call →
          state.applied.subscription.key ≠ call.before ∨
            (call.first = true ∧ reload + 1 = state.reloads.length ∧ call.under.OneLine ∧
              state.applied.subscription.OneLine)
  | .authenticated attempt identity _ =>
      attempt.generation = state.link.socketGeneration → ∀ exchanged, identity = some exchanged →
        exchanged = (state.applied.connection.serverUrl, state.applied.connection.authProvider)
  | _ => True

end Statements

/-! ### The invariant -/

/-- What the reload started last has read so far is applied. -/
def Reflects (applied : Applied Rules) (last : Reload Rules) : Prop :=
  match last.phase with
  | .reading => last.read = none ∧ last.student = none
  | .naming _ =>
      last.read = some (applied.rules, applied.connection) ∧ last.student = none
  | .locating | .applied | .returned =>
      last.read = some (applied.rules, applied.connection) ∧
        last.student = some applied.student
  | .failed => False

/-- What is so while a reload is alone: what it has not applied yet is as it was at its
begin, and connections are under what was applied then or is now. -/
structure Alone (link : MessageLink) (applied : Applied Rules) (last : Reload Rules) : Prop where
  reading : last.phase = .reading → applied.subscription = last.under
  naming : ∀ inputs, last.phase = .naming inputs → applied.student = last.under.student
  subscribed : Subscribed link last.under applied.subscription

structure Converging (state : Extension Rules) : Prop where
  sole : Sole state.link
  off : state.link.enabled = false → Idle state.link
  keyed : ∀ (i : Nat) (reload : Reload Rules), state.reloads[i]? = some reload →
    reload.before = reload.under.key
  last : ∀ i last, Last state i last → Reflects state.applied last
  others : ∀ i last, Last state i last → last.first = true →
    ∀ (j : Nat) (reload : Reload Rules), state.reloads[j]? = some reload → j ≠ i →
      reload.inFlight = false
  alone : ∀ i last, Last state i last → last.first = true → last.inFlight = true →
    Alone state.link state.applied last
  settled : Quiet state → Connected state

variable {state next : Extension Rules} {event : Event Rules}

theorem Reflects.change {applied later : Applied Rules} {last : Reload Rules}
    (reflects : Reflects applied last)
    (read : last.read ≠ none →
      later.rules = applied.rules ∧ later.connection = applied.connection)
    (student : last.student ≠ none → later.student = applied.student) : Reflects later last := by
  unfold Reflects at reflects ⊢
  split at reflects
  · exact reflects
  · obtain ⟨loaded, unnamed⟩ := reflects
    obtain ⟨rules, connection⟩ := read (by rw [loaded]; exact Option.some_ne_none _)
    rw [rules, connection]
    exact ⟨loaded, unnamed⟩
  all_goals
    first
    | exact reflects
    | obtain ⟨loaded, named⟩ := reflects
      obtain ⟨rules, connection⟩ := read (by rw [loaded]; exact Option.some_ne_none _)
      rw [rules, connection, student (by rw [named]; exact Option.some_ne_none _)]
      exact ⟨loaded, named⟩

theorem connectMessages_enabled {link : MessageLink} {token authProvider : Str} :
    (link.connectMessages token authProvider).enabled = link.enabled := by
  unfold connectMessages
  split <;> rfl

theorem reconnectMessages_enabled {link : MessageLink} {token authProvider : Str} :
    (link.reconnectMessages token authProvider).enabled = link.enabled :=
  connectMessages_enabled.trans closeSocket_enabled

theorem scheduleReconnect_enabled {link : MessageLink} :
    link.scheduleReconnect.enabled = link.enabled := by
  unfold scheduleReconnect
  split <;> rfl

/-- Off, nothing is held and nothing is on the way. -/
theorem idle_of_moved {link : MessageLink} (sole : Sole state.link)
    (off : state.link.enabled = false → Idle state.link) (moved : Moved state event link)
    (disabled : link.enabled = false) : Idle link := by
  cases moved with
  | still => exact off disabled
  | enabled awaited =>
      rw [reconnectMessages_enabled] at disabled
      cases disabled
  | replaced on =>
      rw [reconnectMessages_enabled, on] at disabled
      cases disabled
  | stopped => exact idle_closeSocket sole.disable
  | authenticated arrived awaits =>
      have before : state.link.enabled = false := by
        unfold MessageLink.authenticated at disabled
        dsimp only at disabled
        split at disabled
        · exact disabled
        · split at disabled
          · exact disabled
          · rwa [scheduleReconnect_enabled] at disabled
      have idle := off before
      unfold MessageLink.authenticated
      simp only [before, Bool.not_false, Bool.true_or, if_true]
      exact ⟨idle.socket, fun other left => idle.outdated other (List.mem_of_mem_erase left)⟩
  | opened ws => exact ⟨(off disabled).socket, (off disabled).outdated⟩
  | closed ws =>
      have before : state.link.enabled = false := by
        unfold MessageLink.closed at disabled
        dsimp only at disabled
        split at disabled
        · exact disabled
        · rwa [scheduleReconnect_enabled] at disabled
      have idle := off before
      unfold MessageLink.closed
      dsimp only
      split
      · exact ⟨idle.socket, idle.outdated⟩
      · next held =>
          refine absurd (fun here : state.link.socket = some ws => ?_) held
          cases idle.socket.symm.trans here
  | terminated ws => exact ⟨(off disabled).socket, (off disabled).outdated⟩
  | answered ws => exact ⟨(off disabled).socket, (off disabled).outdated⟩
  | pinged ws => exact ⟨(off disabled).socket, (off disabled).outdated⟩
  | fired armed =>
      rw [connectMessages_enabled] at disabled
      rw [connectMessages_of_disabled]
      · exact ⟨(off disabled).socket, (off disabled).outdated⟩
      · exact disabled

theorem subscribed_of_moved {link : MessageLink} {earlier : Subscription}
    (sole : Sole state.link) (moved : Moved state event link) (orderly : Orderly state event)
    (subscribed : Subscribed state.link earlier state.applied.subscription) :
    Subscribed link earlier state.applied.subscription := by
  cases moved with
  | still => exact subscribed
  | enabled awaited => exact subscribed_reconnectMessages sole.enable _ state.applied.subscription
  | replaced on => exact subscribed_reconnectMessages sole _ state.applied.subscription
  | stopped => exact (idle_closeSocket sole.disable).subscribed
  | authenticated arrived awaits =>
      rw [arrived] at orderly
      exact subscribed.authenticated awaits orderly
  | opened ws =>
      have marked : Subscribed (state.link.setWs ws fun ws => { ws with opened := true }) earlier
          state.applied.subscription := subscribed.setWs fun socket => ⟨rfl, rfl⟩
      exact ⟨marked.socket, marked.attempts⟩
  | closed ws => exact subscribed.closed ws
  | terminated ws => exact subscribed.setWs fun socket => ⟨rfl, rfl⟩
  | answered ws => exact subscribed.setWs fun socket => ⟨rfl, rfl⟩
  | pinged ws =>
      apply subscribed.setWs
      intro socket
      split <;> exact ⟨rfl, rfl⟩
  | fired armed =>
      have same : Subscribed { state.link with reconnectTimer := false } earlier
          state.applied.subscription := ⟨subscribed.socket, subscribed.attempts⟩
      exact same.connectMessages (sole.unarm _)

/-- Only the link moves. -/
theorem Converging.relink (converging : Converging state) (moved : Moved state event next.link)
    (orderly : Orderly state event) (applied : next.applied = state.applied)
    (reloads : next.reloads = state.reloads) : Converging next := by
  have last_of : ∀ {i last}, Last next i last → Last state i last := by
    intro i last is_last
    rwa [Last, reloads] at is_last
  constructor
  · exact Sole.moved converging.sole moved
  · exact idle_of_moved converging.sole converging.off moved
  · rw [reloads]
    exact converging.keyed
  · intro i last is_last
    rw [applied]
    exact converging.last i last (last_of is_last)
  · intro i last is_last
    rw [reloads]
    exact converging.others i last (last_of is_last)
  · intro i last is_last first inFlight
    obtain ⟨reading, naming, subscribed⟩ := converging.alone i last (last_of is_last) first inFlight
    rw [applied]
    exact ⟨reading, naming, subscribed_of_moved converging.sole moved orderly subscribed⟩
  · intro quiet
    unfold Connected
    rw [applied]
    apply subscribed_of_moved converging.sole moved orderly
    apply converging.settled
    unfold Quiet at quiet ⊢
    rwa [reloads] at quiet

/-- A reload is begun. -/
theorem Converging.begin (converging : Converging state) (starting : Option Nat) :
    Converging { state.beginReload with starting } := by
  have last_of : ∀ {i last}, Last { state.beginReload with starting } i last →
      last.phase = .reading ∧ last.read = none ∧ last.student = none ∧
        last.under = state.applied.subscription ∧
        (last.first = true → Quiet state) ∧ i = state.reloads.length := by
    rintro i last ⟨found, here⟩
    simp only [beginReload, List.length_append, List.length_singleton, Nat.add_right_cancel_iff]
      at found here
    subst here
    rw [List.getElem?_concat_length] at found
    cases found
    refine ⟨rfl, rfl, rfl, rfl, fun first => ?_, rfl⟩
    intro i reload there
    dsimp only at first
    rw [Bool.not_eq_true', List.any_eq_false] at first
    exact Bool.not_eq_true _ ▸ first reload (List.mem_of_getElem? there)
  constructor
  · exact converging.sole
  · exact converging.off
  · intro i reload found
    simp only [beginReload, List.getElem?_append] at found
    split at found
    · exact converging.keyed i reload found
    · rw [List.getElem?_singleton] at found
      split at found
      · cases found
        rfl
      · cases found
  · intro i last is_last
    obtain ⟨reading, unread, unnamed, -⟩ := last_of is_last
    unfold Reflects
    rw [reading]
    exact ⟨unread, unnamed⟩
  · intro i last is_last first j reload found other
    obtain ⟨-, -, -, -, quiet, rfl⟩ := last_of is_last
    simp only [beginReload, List.getElem?_append] at found
    split at found
    · exact quiet first j reload found
    · rw [List.getElem?_singleton] at found
      split at found
      · omega
      · cases found
  · intro i last is_last first inFlight
    obtain ⟨reading, -, -, under, quiet, -⟩ := last_of is_last
    refine ⟨fun _ => under.symm, fun inputs naming => ?_, ?_⟩
    · cases reading.symm.trans naming
    · rw [under]
      exact converging.settled (quiet first)
  · intro quiet
    have ended := quiet state.reloads.length _ List.getElem?_concat_length
    cases ended

/-- A reload that is in flight makes a step. -/
theorem Converging.turn (converging : Converging state) {reload : Nat} {call later : Reload Rules}
    {link : MessageLink} {applied : Applied Rules} (found : state.reloads[reload]? = some call)
    (inFlight : call.inFlight = true) (sole : Sole link) (off : link.enabled = false → Idle link)
    (same : later.before = call.before ∧ later.under = call.under ∧ later.first = call.first)
    (own : Last state reload call → Reflects applied later)
    (kept : ∀ i last, i ≠ reload → Last state i last → Reflects applied last)
    (alone : Last state reload call → call.first = true → later.inFlight = true →
      Alone link applied later)
    (settled : Quiet { state with link, applied, reloads := state.reloads.set reload later } →
      Subscribed link applied.subscription applied.subscription) :
    Converging { state with link, applied, reloads := state.reloads.set reload later } := by
  have within : reload < state.reloads.length := (List.getElem?_eq_some_iff.mp found).1
  have find : ∀ {j other}, (state.reloads.set reload later)[j]? = some other →
      (j = reload ∧ other = later) ∨ (j ≠ reload ∧ state.reloads[j]? = some other) := by
    intro j other there
    by_cases here : j = reload
    · subst here
      rw [List.getElem?_set_self within] at there
      exact .inl ⟨rfl, (Option.some.inj there).symm⟩
    · rw [List.getElem?_set_ne (Ne.symm here)] at there
      exact .inr ⟨here, there⟩
  -- While the reload started last is alone, no other is in flight.
  have only : ∀ i last, i ≠ reload → Last state i last → last.first ≠ true := by
    intro i last other is_last first
    have ended := converging.others i last is_last first reload call found (Ne.symm other)
    cases inFlight.symm.trans ended
  have last_of : ∀ {i last},
      Last { state with link, applied, reloads := state.reloads.set reload later } i last →
        (i = reload ∧ last = later ∧ Last state reload call) ∨
          (i ≠ reload ∧ Last state i last) := by
    rintro i last ⟨there, here⟩
    dsimp only at there here
    rw [List.length_set] at here
    rcases find there with ⟨rfl, rfl⟩ | ⟨other, there⟩
    · exact .inl ⟨rfl, rfl, found, here⟩
    · exact .inr ⟨other, there, here⟩
  constructor
  · exact sole
  · exact off
  · intro i other there
    rcases find there with ⟨rfl, rfl⟩ | ⟨-, there⟩
    · rw [same.1, same.2.1]
      exact converging.keyed i call found
    · exact converging.keyed i other there
  · intro i last is_last
    rcases last_of is_last with ⟨rfl, rfl, was_last⟩ | ⟨other, was_last⟩
    · exact own was_last
    · exact kept i last other was_last
  · intro i last is_last first j other there different
    rcases last_of is_last with ⟨rfl, rfl, was_last⟩ | ⟨another, was_last⟩
    · rcases find there with ⟨rfl, -⟩ | ⟨-, there⟩
      · exact absurd rfl different
      · rw [same.2.2] at first
        exact converging.others i call was_last first j other there different
    · exact absurd first (only i last another was_last)
  · intro i last is_last first flying
    rcases last_of is_last with ⟨rfl, rfl, was_last⟩ | ⟨another, was_last⟩
    · exact alone was_last (same.2.2 ▸ first) flying
    · exact absurd first (only i last another was_last)
  · exact settled

/-- Nothing is quiet after a step that leaves the reload in flight. -/
theorem not_quiet_set {reload : Nat} {call later : Reload Rules}
    {link : MessageLink} {applied : Applied Rules} (found : state.reloads[reload]? = some call)
    (inFlight : later.inFlight = true) :
    ¬ Quiet { state with link, applied, reloads := state.reloads.set reload later } := by
  intro quiet
  have within : reload < state.reloads.length := (List.getElem?_eq_some_iff.mp found).1
  have ended := quiet reload later (List.getElem?_set_self within)
  cases inFlight.symm.trans ended

/-- Who is busy is not quiet after the step of another. -/
theorem not_quiet_of_busy {reload : Nat} {later : Reload Rules} {link : MessageLink}
    {applied : Applied Rules} (busy : Busy state reload) :
    ¬ Quiet { state with link, applied, reloads := state.reloads.set reload later } := by
  intro quiet
  obtain ⟨i, other, different, found, inFlight⟩ := busy
  have ended := quiet i other ((List.getElem?_set_ne (Ne.symm different)).trans found)
  cases inFlight.symm.trans ended

/-- The event concerns the link alone. -/
def Event.ofLink : Event Rules → Bool
  | .start | .reload | .load _ _ _ | .fail _ _ | .name _ _ | .locate _ _ | .finish _ => false
  | _ => true

theorem rest_of_step (ofLink : event.ofLink = true) (stepped : step state event = some next) :
    next.applied = state.applied ∧ next.reloads = state.reloads := by
  cases event
  case start | reload | load | fail | name | locate | finish => cases ofLink
  all_goals
    unfold Extension.step at stepped
    dsimp only at stepped
    repeat' split at stepped
    all_goals
      cases stepped
      try exact ⟨rfl, rfl⟩

/-- A reload reads the course files and the settings. -/
theorem Converging.load {reload : Nat} {rules : Rules} {inputs : ConfigInputs}
    (converging : Converging state) (orderly : Orderly state (.load reload rules inputs))
    (stepped : step state (.load reload rules inputs) = some next) : Converging next := by
  unfold Extension.step at stepped
  dsimp only at stepped
  split at stepped
  · next call found =>
      split at stepped
      · next reading =>
          cases stepped
          have flying : call.inFlight = true := by
            unfold Reload.inFlight
            rw [reading]
          apply converging.turn found flying converging.sole converging.off
          · exact ⟨rfl, rfl, rfl⟩
          · intro is_last
            have before := converging.last reload call is_last
            unfold Reflects at before
            rw [reading] at before
            exact ⟨rfl, before.2⟩
          · intro i last other is_last
            rcases orderly with same | same
            · exact absurd (Nat.succ_injective (is_last.2.trans same.symm)) other
            · exact (converging.last i last is_last).change (same i last is_last) fun _ => rfl
          · intro is_last first _
            obtain ⟨began, -, subscribed⟩ := converging.alone reload call is_last first flying
            have was := began reading
            refine ⟨nofun, fun _ _ => congrArg Subscription.student was, ?_⟩
            rw [was] at subscribed
            exact subscribed.mono mixes_earlier mixes_earlier
          · exact fun quiet => absurd quiet (not_quiet_set found rfl)
      · cases stepped
  · cases stepped

/-- A reload finds out who the student is. -/
theorem Converging.name {reload : Nat} {gitEmail : Str}
    (converging : Converging state) (orderly : Orderly state (.name reload gitEmail))
    (stepped : step state (.name reload gitEmail) = some next) : Converging next := by
  unfold Extension.step at stepped
  dsimp only at stepped
  split at stepped
  · next call found =>
      split at stepped
      · next inputs naming =>
          cases stepped
          have flying : call.inFlight = true := by
            unfold Reload.inFlight
            rw [naming]
          apply converging.turn found flying converging.sole converging.off
          · exact ⟨rfl, rfl, rfl⟩
          · intro is_last
            have before := converging.last reload call is_last
            unfold Reflects at before
            rw [naming] at before
            exact ⟨before.1, rfl⟩
          · intro i last other is_last
            rcases orderly with same | same
            · exact absurd (Nat.succ_injective (is_last.2.trans same.symm)) other
            · exact (converging.last i last is_last).change (fun _ => ⟨rfl, rfl⟩)
                fun named => same i last is_last named call inputs found naming
          · intro is_last first _
            obtain ⟨-, began, subscribed⟩ := converging.alone reload call is_last first flying
            refine ⟨nofun, nofun, subscribed.mono mixes_earlier ?_⟩
            exact ⟨.inr rfl, .inr rfl, .inr rfl, .inl (began inputs naming)⟩
          · exact fun quiet => absurd quiet (not_quiet_set found rfl)
      · cases stepped
  · cases stepped

/-- A reload finds the repository. -/
theorem Converging.locate {reload : Nat} {repo : Str}
    (converging : Converging state) (stepped : step state (.locate reload repo) = some next) :
    Converging next := by
  unfold Extension.step at stepped
  dsimp only at stepped
  split at stepped
  · next call found =>
      split at stepped
      · next locating =>
          cases stepped
          have flying : call.inFlight = true := by
            unfold Reload.inFlight
            rw [locating]
          apply converging.turn found flying converging.sole converging.off
          · exact ⟨rfl, rfl, rfl⟩
          · intro is_last
            have before := converging.last reload call is_last
            unfold Reflects at before
            rw [locating] at before
            exact before
          · intro i last other is_last
            exact (converging.last i last is_last).change (fun _ => ⟨rfl, rfl⟩) fun _ => rfl
          · intro is_last first _
            obtain ⟨-, -, subscribed⟩ := converging.alone reload call is_last first flying
            exact ⟨nofun, nofun, subscribed⟩
          · exact fun quiet => absurd quiet (not_quiet_set found rfl)
      · cases stepped
  · cases stepped

/-- A reload throws, which one that is not the last may do. -/
theorem Converging.fail {reload : Nat} {rules : Option Rules}
    (converging : Converging state) (orderly : Orderly state (.fail reload rules))
    (stepped : step state (.fail reload rules) = some next) : Converging next := by
  unfold Extension.step at stepped
  dsimp only at stepped
  split at stepped
  · next call found =>
      split at stepped
      · next reading =>
          cases stepped
          obtain ⟨earlier, same, left⟩ := orderly
          have flying : call.inFlight = true := by
            unfold Reload.inFlight
            rw [reading]
          apply converging.turn found flying converging.sole converging.off
          · exact ⟨rfl, rfl, rfl⟩
          · exact fun is_last => absurd is_last.2 earlier
          · intro i last other is_last
            exact (converging.last i last is_last).change
              (fun read => ⟨same i last is_last read, rfl⟩) fun _ => rfl
          · exact fun is_last => absurd is_last.2 earlier
          · intro quiet
            rcases left with busy | disabled | connected
            · exact absurd quiet (not_quiet_of_busy busy)
            · exact (converging.off disabled).subscribed
            · exact connected
      · cases stepped
  · cases stepped

/-- A reload ends: if the subscription has changed, the link connects anew. -/
theorem Converging.finish {reload : Nat}
    (converging : Converging state) (orderly : Orderly state (.finish reload))
    (stepped : step state (.finish reload) = some next) : Converging next := by
  unfold Extension.step at stepped
  dsimp only at stepped
  split at stepped
  · next call found =>
      split at stepped
      · next ending =>
          have flying : call.inFlight = true := by
            unfold Reload.inFlight
            rw [ending]
          have reflects : Last state reload call →
              Reflects state.applied { call with phase := .returned } := by
            intro is_last
            have before := converging.last reload call is_last
            unfold Reflects at before
            rw [ending] at before
            exact before
          split at stepped
          · next changed =>
              have on : state.link.enabled = true := (Bool.and_eq_true_iff.mp changed).1
              cases stepped
              apply converging.turn found flying (converging.sole.reconnectMessages _ _)
              · intro disabled
                rw [reconnectMessages_enabled, on] at disabled
                cases disabled
              · exact ⟨rfl, rfl, rfl⟩
              · exact reflects
              · exact fun i last _ => converging.last i last
              · nofun
              · exact fun _ => subscribed_reconnectMessages converging.sole _
                  state.applied.subscription
          · next unchanged =>
              cases stepped
              apply converging.turn found flying converging.sole converging.off
              · exact ⟨rfl, rfl, rfl⟩
              · exact reflects
              · exact fun i last _ => converging.last i last
              · nofun
              intro quiet
              rcases orderly with busy | disabled | connected | alone
              · exact absurd quiet (not_quiet_of_busy busy)
              · exact (converging.off disabled).subscribed
              · exact connected
              · rcases alone call found with changed | ⟨first, here, clean, clean'⟩
                · by_cases on : state.link.enabled = true
                  · refine absurd ?_ unchanged
                    exact Bool.and_eq_true_iff.mpr ⟨on, decide_eq_true changed⟩
                  · exact (converging.off (Bool.not_eq_true _ ▸ on)).subscribed
                · have subscribed :=
                    (converging.alone reload call ⟨found, here⟩ first flying).subscribed
                  by_cases on : state.link.enabled = true
                  · have same : state.applied.subscription.key = call.before := by
                      by_contra changed
                      exact unchanged (Bool.and_eq_true_iff.mpr ⟨on, decide_eq_true changed⟩)
                    rw [converging.keyed reload call found] at same
                    rwa [← key_inj clean' clean same] at subscribed
                  · exact (converging.off (Bool.not_eq_true _ ▸ on)).subscribed
      · cases stepped
  · cases stepped

/-- A step of a run that keeps to the order. -/
theorem Converging.step (converging : Converging state) (orderly : Orderly state event)
    (stepped : step state event = some next) : Converging next := by
  have moved := (moved_of_step stepped).1
  cases event with
  | start =>
      unfold Extension.step at stepped
      dsimp only at stepped
      split at stepped
      · cases stepped
        exact converging
      · cases stepped
        exact converging.begin _
  | reload =>
      cases stepped
      exact converging.begin state.starting
  | load => exact converging.load orderly stepped
  | name => exact converging.name orderly stepped
  | locate => exact converging.locate stepped
  | fail => exact converging.fail orderly stepped
  | finish => exact converging.finish orderly stepped
  | _ =>
      obtain ⟨applied, reloads⟩ := rest_of_step rfl stepped
      exact converging.relink moved orderly applied reloads

theorem converging_initial (rules : Rules) : Converging (initial rules) where
  sole := sole_fresh
  off _ := ⟨rfl, nofun⟩
  keyed _ _ found := by cases found
  last _ _ is_last := by cases is_last.1
  others _ _ is_last := by cases is_last.1
  alone _ _ is_last := by cases is_last.1
  settled _ := Idle.subscribed ⟨rfl, nofun⟩

/-- With no reload in flight everything that the last one has read is applied. -/
theorem Converging.converged (converging : Converging state) (quiet : Quiet state) :
    Converged state := by
  constructor
  · intro i last is_last
    have reflects := converging.last i last is_last
    have ended := quiet i last is_last.1
    unfold Reload.inFlight at ended
    unfold Reflects at reflects
    split at ended
    · next returned =>
        rw [returned] at reflects
        exact reflects
    · next failed =>
        rw [failed] at reflects
        exact reflects.elim
    · cases ended
  · intro ws socket held found
    obtain ⟨mixes, identity⟩ := (converging.settled quiet).socket ws socket held found
    refine ⟨mixes.eq, fun exchanged own => ?_⟩
    obtain ⟨serverUrl, authProvider⟩ := identity exchanged.1 exchanged.2 own
    exact Prod.ext (serverUrl.elim id id) (authProvider.elim id id)

/-- In every run that keeps to the order, whenever no reload is in flight, what the last
one has read is applied, and the socket was opened under it. -/
theorem reloads_converge (rules : Rules) (events : List (Event Rules)) (state : Extension Rules)
    (ran : run step (initial rules) events = some state)
    (orderly : Guarded step Orderly (initial rules) events) (quiet : Quiet state) :
    Converged state := by
  have converging : Converging state := by
    apply invariant_of_guarded _ (converging_initial rules) orderly ran
    exact fun _ _ _ converging orderly stepped => converging.step orderly stepped
  exact converging.converged quiet

/-- A reload overlaps with that of a start, and each step of it comes after. -/
def overlapping : List (Event Unit) :=
  [.start, .reload, .load 0 () (course "ada"), .load 1 () (course "bob"), .name 0 [], .name 1 [],
    .locate 0 [], .locate 1 [], .finish 0, .finish 1, .resume,
    .authenticated ⟨2, "token".toList, "github".toList⟩ none true]

theorem reloads_converge_overlapping :
    ∃ state, run step (initial ()) overlapping = some state ∧ Converged state := by
  refine ⟨_, rfl, ?_⟩
  apply reloads_converge () overlapping _ rfl
  · apply Guarded.cons trivial rfl
    apply Guarded.cons trivial rfl
    refine Guarded.cons (.inr ?_) rfl ?_
    · rintro i last ⟨found, here⟩ read
      obtain rfl : i = 1 := Nat.succ_injective here
      cases found
      exact absurd rfl read
    apply Guarded.cons (.inl rfl) rfl
    refine Guarded.cons (.inr ?_) rfl ?_
    · rintro i last ⟨found, here⟩ named
      obtain rfl : i = 1 := Nat.succ_injective here
      cases found
      exact absurd rfl named
    apply Guarded.cons (.inl rfl) rfl
    apply Guarded.cons trivial rfl
    apply Guarded.cons trivial rfl
    apply Guarded.cons (.inr (.inl rfl)) rfl
    apply Guarded.cons (.inr (.inl rfl)) rfl
    apply Guarded.cons trivial rfl
    exact Guarded.cons (fun _ => nofun) rfl trivial
  · intro i reload found
    match i with
    | 0 =>
        cases found
        rfl
    | 1 =>
        cases found
        rfl
    | i + 2 => cases found

/-- Two reloads of a connected editor, of which the first is overtaken by the second. -/
def overtaken : List (Event Unit) :=
  connected ++ [.reload, .reload] ++ wholeReload 2 (course "bob") ++ wholeReload 1 (course "cyd")

/-- The reload started last has read `bob`, but `cyd` is applied. -/
theorem not_reloads_converge_overtaken :
    ¬ ∀ (events : List (Event Unit)) (state : Extension Unit),
      run step (initial ()) events = some state → Quiet state → Converged state := by
  intro converge
  have ends : (run step (initial ()) overtaken).map (fun state =>
      (state.reloads.map fun reload => (reload.inFlight, reload.student),
        state.applied.student)) =
      some ([(false, some "ada".toList), (false, some "cyd".toList), (false, some "bob".toList)],
        "cyd".toList) := by
    decide +kernel
  obtain ⟨state, ran, seen⟩ := Option.map_eq_some_iff.mp ends
  obtain ⟨reloads, applied⟩ := Prod.mk.inj seen
  have seen_one (i : Nat) (reload : Reload Unit) (found : state.reloads[i]? = some reload) :
      (reload.inFlight, reload.student) ∈
        [(false, some "ada".toList), (false, some "cyd".toList), (false, some "bob".toList)] := by
    rw [← reloads]
    exact List.mem_map_of_mem (List.mem_of_getElem? found)
  have converged := converge overtaken state ran (by
    intro i reload found
    have one := seen_one i reload found
    simp only [List.mem_cons, Prod.mk.injEq, List.not_mem_nil, or_false] at one
    rcases one with ⟨ended, -⟩ | ⟨ended, -⟩ | ⟨ended, -⟩ <;> exact ended)
  have third : (state.reloads[2]?).map (fun reload => (reload.inFlight, reload.student)) =
      some (false, some "bob".toList) := by
    rw [← List.getElem?_map, reloads]
    rfl
  have three : state.reloads.length = 3 := by
    rw [← List.length_map (f := fun reload : Reload Unit => (reload.inFlight, reload.student)),
      reloads]
    rfl
  obtain ⟨last, found, read⟩ := Option.map_eq_some_iff.mp third
  have named := (converged.read 2 last ⟨found, three.symm⟩).2
  rw [applied, (Prod.mk.inj read).2] at named
  exact absurd named (by decide)

end Extension

end Hermione
