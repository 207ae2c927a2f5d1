import Mathlib.Data.List.Nodup
import Hermione.MessageLink

/-!
# One message socket

Whatever is connecting, opening, closing or being waited for, no more than one socket
is neither closed nor terminated, and it is the one that is held.  What rules out a
second one is that of three things there is never more than one: a socket, a timer that
is to open the next, and a connection of the current generation that awaits its
credentials.
-/

namespace Hermione

open EventRuns

namespace MessageLink

/-- Only the socket that is held is live, and while it is held, nothing is on the way to
open another. -/
structure Sole (link : MessageLink) : Prop where
  live : ∀ ws socket, link.sockets[ws]? = some socket → socket.live = true →
    link.socket = some ws
  generations : ∀ attempt ∈ link.attempts, attempt.generation ≤ link.socketGeneration
  distinct : (link.attempts.map Attempt.generation).Nodup
  waiting : ∀ attempt ∈ link.attempts, attempt.generation = link.socketGeneration →
    link.socket = none ∧ link.reconnectTimer = false
  timer : link.reconnectTimer = true → link.socket = none

variable {link : MessageLink}

theorem sole_fresh : Sole fresh where
  live _ _ found := by cases found
  generations := nofun
  distinct := List.nodup_nil
  waiting := nofun
  timer _ := rfl

/-- No change of a socket makes it live again. -/
theorem Sole.setWs (sole : Sole link) {ws : Nat} {change : Ws → Ws}
    (dies : ∀ socket, (change socket).live = true → socket.live = true) :
    Sole (link.setWs ws change) := by
  constructor
  · intro other socket found live
    unfold MessageLink.setWs at found
    dsimp only at found
    rw [List.getElem?_modify] at found
    obtain ⟨before, was, rfl⟩ := Option.map_eq_some_iff.mp found
    apply sole.live other before was
    split at live
    · exact dies before live
    · exact live
  · exact sole.generations
  · exact sole.distinct
  · exact sole.waiting
  · exact sole.timer

theorem Sole.terminate (sole : Sole link) (ws : Nat) : Sole (link.terminate ws) := by
  apply sole.setWs
  intro socket live
  simp [Ws.live] at live

theorem Sole.cancelPing (sole : Sole link) : Sole link.cancelPing :=
  ⟨sole.live, sole.generations, sole.distinct, sole.waiting, sole.timer⟩

/-- Nothing is held, and nothing that awaits its credentials will be used. -/
structure Idle (link : MessageLink) : Prop where
  socket : link.socket = none
  outdated : ∀ attempt ∈ link.attempts, attempt.generation < link.socketGeneration

theorem idle_closeSocket (sole : Sole link) : Idle link.closeSocket := by
  have older : ∀ attempt ∈ link.attempts, attempt.generation < link.socketGeneration + 1 :=
    fun attempt member => Nat.lt_succ_of_le (sole.generations attempt member)
  unfold closeSocket
  cases link.socket with
  | none => exact ⟨rfl, older⟩
  | some old => exact ⟨rfl, older⟩

theorem Sole.closeSocket (sole : Sole link) : Sole link.closeSocket := by
  have idle := idle_closeSocket sole
  constructor
  · intro ws socket found live
    exfalso
    unfold MessageLink.closeSocket at found
    dsimp only at found
    cases held : link.socket with
    | none =>
        rw [held] at found
        cases held.symm.trans (sole.live ws socket found live)
    | some old =>
        rw [held] at found
        unfold MessageLink.terminate MessageLink.setWs at found
        dsimp only at found
        rw [List.getElem?_modify] at found
        obtain ⟨before, was, rfl⟩ := Option.map_eq_some_iff.mp found
        split at live
        · simp [Ws.live] at live
        · next different =>
            have held' := sole.live ws before was live
            rw [held] at held'
            exact different (Option.some.inj held')
  · exact fun attempt member => (idle.outdated attempt member).le
  · unfold MessageLink.closeSocket
    cases link.socket <;> exact sole.distinct
  · exact fun attempt member same => absurd same (idle.outdated attempt member).ne
  · exact fun _ => idle.socket

theorem closeSocket_enabled : link.closeSocket.enabled = link.enabled := by
  unfold closeSocket
  cases link.socket <;> rfl

theorem Sole.unarm (sole : Sole link) (reconnectAttempts : Nat) :
    Sole { link with reconnectTimer := false, reconnectAttempts } :=
  ⟨sole.live, sole.generations, sole.distinct,
    fun attempt member same => ⟨(sole.waiting attempt member same).1, rfl⟩, nofun⟩

/-- A connection is begun while nothing else is on the way. -/
theorem Sole.connectMessages (sole : Sole link) (none_held : link.socket = none)
    (unarmed : link.reconnectTimer = false) (token authProvider : Str) :
    Sole (link.connectMessages token authProvider) := by
  unfold MessageLink.connectMessages
  split
  · exact sole
  · have older : ∀ attempt ∈ link.attempts, attempt.generation < link.socketGeneration + 1 :=
      fun attempt member => Nat.lt_succ_of_le (sole.generations attempt member)
    constructor
    · exact sole.live
    · intro attempt member
      rcases List.mem_append.mp member with before | added
      · exact (older attempt before).le
      · rw [List.mem_singleton.mp added]
    · dsimp only
      rw [List.map_append, List.nodup_append]
      refine ⟨sole.distinct, List.nodup_singleton _, ?_⟩
      intro generation before other added
      obtain ⟨attempt, member, rfl⟩ := List.mem_map.mp before
      rw [List.mem_singleton.mp added]
      exact (older attempt member).ne
    · exact fun _ _ _ => ⟨none_held, unarmed⟩
    · exact fun _ => none_held

theorem Sole.reconnectMessages (sole : Sole link) (token authProvider : Str) :
    Sole (link.reconnectMessages token authProvider) := by
  have idle := idle_closeSocket sole
  exact (sole.closeSocket.unarm 0).connectMessages idle.socket rfl token authProvider

theorem Sole.scheduleReconnect (sole : Sole link) (idle : Idle link) :
    Sole link.scheduleReconnect := by
  unfold MessageLink.scheduleReconnect
  split
  · exact sole
  · exact ⟨sole.live, sole.generations, sole.distinct,
      fun attempt member same => absurd same (idle.outdated attempt member).ne,
      fun _ => idle.socket⟩

/-- With its credentials there, a connection that was not overtaken opens the only
socket. -/
theorem Sole.authenticated (sole : Sole link) {attempt : Attempt} (member : attempt ∈ link.attempts)
    (serverUrl student : Str) (identity : Option (Str × Str)) (constructed : Bool) :
    Sole (link.authenticated attempt serverUrl student identity constructed) := by
  have others : ∀ other ∈ link.attempts.erase attempt, other ∈ link.attempts ∧
      other.generation ≠ attempt.generation := by
    intro other left
    have there := List.mem_of_mem_erase left
    refine ⟨there, fun same => ?_⟩
    have distinct := sole.distinct
    have inj := List.inj_on_of_nodup_map distinct there member same
    rw [inj] at left
    exact (List.Nodup.of_map _ distinct).not_mem_erase left
  have rest : Sole { link with attempts := link.attempts.erase attempt } :=
    ⟨sole.live, fun other left => sole.generations other (others other left).1,
      sole.distinct.sublist (List.erase_sublist.map _),
      fun other left => sole.waiting other (others other left).1, sole.timer⟩
  unfold MessageLink.authenticated
  dsimp only
  split
  · exact rest
  · next current =>
      simp only [ne_eq, decide_not, Bool.or_eq_true, Bool.not_eq_true', decide_eq_false_iff_not,
        not_or, Bool.not_eq_false, not_not] at current
      obtain ⟨none_held, unarmed⟩ := sole.waiting attempt member current.2
      have outdated : ∀ other ∈ link.attempts.erase attempt,
          other.generation < link.socketGeneration := by
        intro other left
        obtain ⟨there, different⟩ := others other left
        exact lt_of_le_of_ne (sole.generations other there) (current.2 ▸ different)
      split
      · constructor
        · intro ws socket found live
          dsimp only at found
          rw [List.getElem?_append] at found
          split at found
          · cases none_held.symm.trans (sole.live ws socket found live)
          · next beyond =>
              rw [List.getElem?_singleton] at found
              split at found
              · next first =>
                  have here : ws = link.sockets.length :=
                    le_antisymm (Nat.sub_eq_zero_iff_le.mp first) (not_lt.mp beyond)
                  rw [here]
              · cases found
        · exact rest.generations
        · exact rest.distinct
        · exact fun other left same => absurd same (outdated other left).ne
        · exact fun armed => by cases unarmed.symm.trans armed
      · exact rest.scheduleReconnect ⟨none_held, outdated⟩

theorem Sole.closed (sole : Sole link) (ws : Nat) : Sole (link.closed ws) := by
  have marked : Sole (link.setWs ws fun ws => { ws with closed := true }) := by
    apply sole.setWs
    intro socket live
    simp [Ws.live] at live
  unfold MessageLink.closed
  dsimp only
  split
  · exact marked
  · next held =>
      have held : link.socket = some ws := not_not.mp held
      have outdated : ∀ attempt ∈ link.attempts, attempt.generation < link.socketGeneration := by
        intro attempt member
        apply lt_of_le_of_ne (sole.generations attempt member)
        intro same
        cases held.symm.trans (sole.waiting attempt member same).1
      have emptied : Sole
          { link.setWs ws (fun ws => { ws with closed := true }) with socket := none } := by
        constructor
        · intro other socket found live
          exfalso
          have same : some ws = some other := held.symm.trans (marked.live other socket found live)
          cases same
          unfold MessageLink.setWs at found
          dsimp only at found
          rw [List.getElem?_modify_eq] at found
          obtain ⟨before, -, rfl⟩ := Option.map_eq_some_iff.mp found
          simp [Ws.live] at live
        · exact sole.generations
        · exact sole.distinct
        · exact fun attempt member same => absurd same (outdated attempt member).ne
        · exact fun _ => rfl
      exact emptied.cancelPing.scheduleReconnect ⟨rfl, outdated⟩

theorem Sole.disable (sole : Sole link) :
    Sole { link with enabled := false, reconnectTimer := false } :=
  ⟨sole.live, sole.generations, sole.distinct,
    fun attempt member same => ⟨(sole.waiting attempt member same).1, rfl⟩, nofun⟩

theorem Sole.stop (sole : Sole link) : Sole link.stop :=
  sole.disable.closeSocket

/-- The timer that is to open the next socket fires. -/
theorem Sole.reconnect (sole : Sole link) (armed : link.reconnectTimer = true)
    (token authProvider : Str) :
    Sole ({ link with reconnectTimer := false }.connectMessages token authProvider) := by
  exact (sole.unarm _).connectMessages (sole.timer armed) rfl token authProvider

theorem Sole.enable (sole : Sole link) : Sole { link with enabled := true } :=
  ⟨sole.live, sole.generations, sole.distinct, sole.waiting, sole.timer⟩

theorem Sole.ping (sole : Sole link) (ws : Nat) : Sole (link.ping ws) := by
  apply sole.setWs
  intro socket live
  split at live
  · simp [Ws.live] at live
  · exact live

theorem Sole.opened (sole : Sole link) (ws : Nat) : Sole (link.opened ws) := by
  have marked : Sole (link.setWs ws fun ws => { ws with opened := true }) :=
    sole.setWs fun socket live => live
  exact ⟨marked.live, marked.generations, marked.distinct, marked.waiting, marked.timer⟩

end MessageLink

namespace Extension

variable {Rules : Type} {state next : Extension Rules} {event : Event Rules}

open MessageLink

/-- What an event does to the socket and what is on the way to it. -/
inductive Moved (state : Extension Rules) (event : Event Rules) : MessageLink → Prop where
  | still : Moved state event state.link
  | enabled (awaited : state.starting ≠ none) :
      Moved state event ({ state.link with enabled := true }.reconnectMessages
        state.applied.connection.token state.applied.connection.authProvider)
  | replaced (on : state.link.enabled = true) :
      Moved state event (state.link.reconnectMessages state.applied.connection.token
        state.applied.connection.authProvider)
  | stopped : Moved state event state.link.stop
  | authenticated {attempt : Attempt} {identity : Option (Str × Str)} {constructed : Bool}
      (arrived : event = .authenticated attempt identity constructed)
      (awaits : attempt ∈ state.link.attempts) :
      Moved state event (state.link.authenticated attempt state.applied.connection.serverUrl
        state.applied.student identity constructed)
  | opened (ws : Nat) : Moved state event (state.link.opened ws)
  | closed (ws : Nat) : Moved state event (state.link.closed ws)
  | terminated (ws : Nat) : Moved state event (state.link.terminate ws)
  | answered (ws : Nat) :
      Moved state event (state.link.setWs ws fun ws => { ws with alive := true })
  | pinged (ws : Nat) : Moved state event (state.link.ping ws)
  | fired (armed : state.link.reconnectTimer = true) :
      Moved state event ({ state.link with reconnectTimer := false }.connectMessages
        state.applied.connection.token state.applied.connection.authProvider)

/-- Whatever happens, the link moves in one of these ways, and only a `start` makes a
reload be awaited. -/
theorem moved_of_step (stepped : step state event = some next) :
    Moved state event next.link ∧
      (state.starting = none → event ≠ .start → next.starting = none) := by
  cases event with
  | start =>
      refine ⟨?_, fun _ different => absurd rfl different⟩
      unfold step at stepped
      dsimp only at stepped
      split at stepped <;> cases stepped <;> exact .still
  | resume =>
      unfold step at stepped
      dsimp only at stepped
      split at stepped
      · cases stepped
      · next reload awaited =>
          have waits : state.starting ≠ none := by
            intro nothing
            rw [nothing] at awaited
            cases awaited
          split at stepped
          · cases stepped
            exact ⟨.enabled waits, fun nothing => absurd nothing waits⟩
          · cases stepped
            exact ⟨.still, fun _ _ => rfl⟩
          · cases stepped
  | stop =>
      cases stepped
      exact ⟨.stopped, fun idle _ => idle⟩
  | reload =>
      cases stepped
      exact ⟨.still, fun idle _ => idle⟩
  | load reload rules inputs =>
      unfold step at stepped
      dsimp only at stepped
      split at stepped
      · split at stepped
        · cases stepped
          exact ⟨.still, fun idle _ => idle⟩
        · cases stepped
      · cases stepped
  | fail reload rules =>
      unfold step at stepped
      dsimp only at stepped
      split at stepped
      · split at stepped
        · cases stepped
          exact ⟨.still, fun idle _ => idle⟩
        · cases stepped
      · cases stepped
  | name reload gitEmail =>
      unfold step at stepped
      dsimp only at stepped
      split at stepped
      · split at stepped
        · cases stepped
          exact ⟨.still, fun idle _ => idle⟩
        · cases stepped
      · cases stepped
  | locate reload repo =>
      unfold step at stepped
      dsimp only at stepped
      split at stepped
      · split at stepped
        · cases stepped
          exact ⟨.still, fun idle _ => idle⟩
        · cases stepped
      · cases stepped
  | finish reload =>
      unfold step at stepped
      dsimp only at stepped
      split at stepped
      · split at stepped
        · split at stepped
          · next changed =>
              cases stepped
              have on : state.link.enabled = true := (Bool.and_eq_true_iff.mp changed).1
              exact ⟨.replaced on, fun idle _ => idle⟩
          · cases stepped
            exact ⟨.still, fun idle _ => idle⟩
        · cases stepped
      · cases stepped
  | authenticated attempt identity constructed =>
      unfold step at stepped
      dsimp only at stepped
      split at stepped
      · next awaits =>
          cases stepped
          exact ⟨.authenticated rfl awaits, fun idle _ => idle⟩
      · cases stepped
  | opened ws =>
      unfold step at stepped
      dsimp only at stepped
      split at stepped
      · split at stepped
        · cases stepped
          exact ⟨.opened ws, fun idle _ => idle⟩
        · cases stepped
      · cases stepped
  | closed ws =>
      unfold step at stepped
      dsimp only at stepped
      split at stepped
      · split at stepped
        · cases stepped
          exact ⟨.closed ws, fun idle _ => idle⟩
        · cases stepped
      · cases stepped
  | errored ws =>
      unfold step at stepped
      dsimp only at stepped
      split at stepped
      · cases stepped
        exact ⟨.terminated ws, fun idle _ => idle⟩
      · cases stepped
  | pong ws =>
      unfold step at stepped
      dsimp only at stepped
      split at stepped
      · cases stepped
        exact ⟨.answered ws, fun idle _ => idle⟩
      · cases stepped
  | ping ws =>
      unfold step at stepped
      dsimp only at stepped
      split at stepped
      · cases stepped
        exact ⟨.pinged ws, fun idle _ => idle⟩
      · cases stepped
  | reconnect =>
      unfold step at stepped
      dsimp only at stepped
      split at stepped
      · next armed =>
          cases stepped
          exact ⟨.fired armed, fun idle _ => idle⟩
      · cases stepped

theorem Sole.moved {link : MessageLink} (sole : Sole state.link)
    (moved : Moved state event link) :
    Sole link := by
  cases moved with
  | still => exact sole
  | enabled awaited => exact sole.enable.reconnectMessages _ _
  | replaced on => exact sole.reconnectMessages _ _
  | stopped => exact sole.stop
  | authenticated arrived awaits => exact sole.authenticated awaits _ _ _ _
  | opened ws => exact sole.opened ws
  | closed ws => exact sole.closed ws
  | terminated ws => exact sole.terminate ws
  | answered ws => exact sole.setWs fun socket live => live
  | pinged ws => exact sole.ping ws
  | fired armed => exact sole.reconnect armed _ _

/-- Off, with so many sockets created, and no `start` in progress. -/
structure Off (created : Nat) (state : Extension Rules) : Prop where
  disabled : state.link.enabled = false
  idle : state.starting = none
  sockets : state.link.sockets.length = created

theorem closeSocket_sockets_length {link : MessageLink} :
    link.closeSocket.sockets.length = link.sockets.length := by
  unfold closeSocket
  cases link.socket with
  | none => rfl
  | some old => exact List.length_modify _ _ _

theorem connectMessages_of_disabled {link : MessageLink} (disabled : link.enabled = false)
    (token authProvider : Str) : link.connectMessages token authProvider = link := by
  unfold connectMessages
  rw [disabled]
  rfl

theorem scheduleReconnect_of_disabled {link : MessageLink} (disabled : link.enabled = false) :
    link.scheduleReconnect = link := by
  unfold scheduleReconnect
  simp [disabled]

/-- Off, nothing but a `start` turns the link on or creates a socket. -/
theorem Off.step {created : Nat} (off : Off created state) (different : event ≠ .start)
    (stepped : step state event = some next) : Off created next := by
  obtain ⟨moved, starting⟩ := moved_of_step stepped
  have idle := starting off.idle different
  suffices still : next.link.enabled = false ∧ next.link.sockets.length = created from
    ⟨still.1, idle, still.2⟩
  have disabled := off.disabled
  generalize next.link = link at moved
  cases moved with
  | still => exact ⟨disabled, off.sockets⟩
  | enabled awaited => exact absurd off.idle awaited
  | replaced on => cases disabled.symm.trans on
  | stopped => exact ⟨closeSocket_enabled, closeSocket_sockets_length.trans off.sockets⟩
  | authenticated arrived awaits =>
      unfold MessageLink.authenticated
      simp only [disabled, Bool.not_false, Bool.true_or, if_true]
      exact ⟨trivial, off.sockets⟩
  | opened ws => exact ⟨disabled, (List.length_modify _ _ _).trans off.sockets⟩
  | closed ws =>
      unfold MessageLink.closed
      dsimp only
      split
      · exact ⟨disabled, (List.length_modify _ _ _).trans off.sockets⟩
      · rw [scheduleReconnect_of_disabled]
        · exact ⟨disabled, (List.length_modify _ _ _).trans off.sockets⟩
        · exact disabled
  | terminated ws => exact ⟨disabled, (List.length_modify _ _ _).trans off.sockets⟩
  | answered ws => exact ⟨disabled, (List.length_modify _ _ _).trans off.sockets⟩
  | pinged ws => exact ⟨disabled, (List.length_modify _ _ _).trans off.sockets⟩
  | fired armed =>
      rw [connectMessages_of_disabled]
      · exact ⟨disabled, off.sockets⟩
      · exact disabled

/-- A late close or error of an earlier socket changes nothing but that socket. -/
theorem late_event {ws : Nat} (earlier : state.link.socket ≠ some ws)
    (late : event = .closed ws ∨ event = .errored ws) (stepped : step state event = some next) :
    next.link.socket = state.link.socket ∧
      next.link.reconnectTimer = state.link.reconnectTimer ∧
      next.link.attempts = state.link.attempts := by
  rcases late with rfl | rfl
  · unfold step at stepped
    dsimp only at stepped
    split at stepped
    · split at stepped
      · cases stepped
        unfold MessageLink.closed
        dsimp only
        split
        · exact ⟨rfl, rfl, rfl⟩
        · next held => exact absurd earlier held
      · cases stepped
    · cases stepped
  · unfold step at stepped
    dsimp only at stepped
    split at stepped
    · cases stepped
      exact ⟨rfl, rfl, rfl⟩
    · cases stepped

/-- Over every run no socket is live but the one that is held, late events of others
leave it and what is on the way to the next alone, and after a `stop` that comes into no
`start` none is created before the next `start`. -/
theorem one_message_socket (rules : Rules) (events : List (Event Rules)) (state : Extension Rules)
    (ran : run step (initial rules) events = some state) :
    (∀ ws socket, state.link.sockets[ws]? = some socket → socket.live = true →
        state.link.socket = some ws) ∧
      (∀ ws event next, (event = .closed ws ∨ event = .errored ws) →
        state.link.socket ≠ some ws → step state event = some next →
          next.link.socket = state.link.socket ∧
            next.link.reconnectTimer = state.link.reconnectTimer ∧
            next.link.attempts = state.link.attempts) ∧
      (state.starting = none → ∀ later final, (∀ event ∈ later, event ≠ .start) →
        run step state (.stop :: later) = some final →
          final.link.sockets.length = state.link.sockets.length) := by
  have sole : Sole state.link := by
    have kept : ∀ (state : Extension Rules) (event : Event Rules) (next : Extension Rules),
        Sole state.link → step state event = some next → Sole next.link :=
      fun _ _ _ sole stepped => Sole.moved sole (moved_of_step stepped).1
    exact invariant_of_run kept (sole_fresh : Sole (initial rules).link) ran
  refine ⟨sole.live, fun ws event next late earlier => late_event earlier late, ?_⟩
  intro idle later final without stopping
  obtain ⟨next, stepped, rest⟩ := run_cons_eq_some_iff.mp stopping
  cases stepped
  have off : Off state.link.sockets.length { state with link := state.link.stop } :=
    ⟨closeSocket_enabled, idle, closeSocket_sockets_length⟩
  have guarded : Guarded step (fun _ event => event ≠ .start)
      { state with link := state.link.stop } later :=
    guarded_of_forall fun event member _ => without event member
  exact (invariant_of_guarded (fun _ _ _ off different stepped => off.step different stepped) off
    guarded rest).sockets

/-- A course that is connected to as `student`. -/
def course (student : String) : ConfigInputs :=
  { course :=
      { backend := some "https://hermione.example".toList
        token := some "token".toList
        identity := none
        authProvider := none
        shareFileContents := none }
    trusted := true
    user := { serverUrl := none, token := none, shareFileContents := none }
    envToken := none
    student := some student.toList
    envStudent := none
    githubUser := none
    osUser := [] }

/-- The steps of a reload that nothing comes in between. -/
def wholeReload (reload : Nat) (inputs : ConfigInputs) : List (Event Unit) :=
  [.load reload () inputs, .name reload [], .locate reload [], .finish reload]

/-- A start, with the socket that it opens. -/
def connected : List (Event Unit) :=
  .start :: wholeReload 0 (course "ada") ++
    [.resume, .authenticated ⟨2, "token".toList, "github".toList⟩ none true, .opened 0]

/-- A socket is open; when it was stopped its close is late. -/
theorem one_message_socket_stopped :
    ∃ state final, run step (initial ()) connected = some state ∧
      run step state [.stop, .closed 0] = some final ∧
      final.link.sockets.length = state.link.sockets.length := by
  refine ⟨_, _, rfl, rfl, ?_⟩
  apply (one_message_socket () connected _ rfl).2.2 rfl [.closed 0]
  · simp
  · rfl

end Extension

end Hermione
