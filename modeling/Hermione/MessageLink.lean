import Mathlib.Data.List.Basic
import Hermione.EventRuns
import Hermione.EditorSettings

/-!
# The editor's message socket and its settings

The extension keeps one message socket, which it replaces when the settings that it
was opened under change and opens again when it is lost.  Connecting awaits the
credentials, a reload awaits the course files, git and more; each of these steps is an
event, and so is everything that happens to a socket.
-/

namespace Hermione

/-- What a socket is subscribed under. -/
@[ext]
structure Subscription where
  serverUrl : Str
  token : Str
  authProvider : Str
  student : Str
  deriving DecidableEq

/-- A socket that was created. -/
structure Ws where
  under : Subscription
  /-- Server and provider that the identity in its headers was exchanged at. -/
  identity : Option (Str × Str)
  opened : Bool
  closed : Bool
  terminated : Bool
  /-- It has answered since the last ping. -/
  alive : Bool

def Ws.live (ws : Ws) : Bool :=
  !ws.closed && !ws.terminated

/-- A connection that awaits its credentials. -/
structure Attempt where
  generation : Nat
  token : Str
  authProvider : Str
  deriving DecidableEq

structure MessageLink where
  enabled : Bool
  /-- Bumped whenever the socket is replaced. -/
  socketGeneration : Nat
  socket : Option Nat
  /-- Every socket created so far. -/
  sockets : List Ws
  attempts : List Attempt
  reconnectTimer : Bool
  reconnectAttempts : Nat
  /-- The socket whose interval the handle is of. -/
  pingTimer : Option Nat
  /-- The sockets whose intervals are running. -/
  ticking : List Nat

namespace MessageLink

def fresh : MessageLink :=
  { enabled := false
    socketGeneration := 0
    socket := none
    sockets := []
    attempts := []
    reconnectTimer := false
    reconnectAttempts := 0
    pingTimer := none
    ticking := [] }

def setWs (link : MessageLink) (ws : Nat) (change : Ws → Ws) : MessageLink :=
  { link with sockets := link.sockets.modify ws change }

def terminate (link : MessageLink) (ws : Nat) : MessageLink :=
  link.setWs ws fun ws => { ws with terminated := true }

def cancelPing (link : MessageLink) : MessageLink :=
  { link with
    ticking := link.ticking.filter fun ws => link.pingTimer ≠ some ws
    pingTimer := none }

def closeSocket (link : MessageLink) : MessageLink :=
  let closed :=
    { link.cancelPing with socketGeneration := link.socketGeneration + 1, socket := none }
  match link.socket with
  | some old => closed.terminate old
  | none => closed

/-- Begins to connect: the credentials are asked for. -/
def connectMessages (link : MessageLink) (token authProvider : Str) : MessageLink :=
  if !link.enabled then link
  else
    let generation := link.socketGeneration + 1
    { link with
      socketGeneration := generation
      attempts := link.attempts ++ [{ generation, token, authProvider }] }

/-- Replaces the socket immediately, without the reconnect delay. -/
def reconnectMessages (link : MessageLink) (token authProvider : Str) : MessageLink :=
  { link.closeSocket with reconnectTimer := false, reconnectAttempts := 0 }.connectMessages
    token authProvider

def scheduleReconnect (link : MessageLink) : MessageLink :=
  if link.reconnectTimer || !link.enabled then link
  else { link with reconnectTimer := true, reconnectAttempts := link.reconnectAttempts + 1 }

/-- The credentials of a connection are there.  `constructed` tells whether the socket
can be created. -/
def authenticated (link : MessageLink) (attempt : Attempt) (serverUrl student : Str)
    (identity : Option (Str × Str)) (constructed : Bool) : MessageLink :=
  let link := { link with attempts := link.attempts.erase attempt }
  -- Stopped, or replaced while signing in.
  if !link.enabled || attempt.generation ≠ link.socketGeneration then link
  else if constructed then
    { link with
      sockets :=
        link.sockets ++
          [{ under :=
              { serverUrl
                token := attempt.token
                authProvider := attempt.authProvider
                student }
             identity
             opened := false
             closed := false
             terminated := false
             alive := true }]
      socket := some link.sockets.length }
  else link.scheduleReconnect

def opened (link : MessageLink) (ws : Nat) : MessageLink :=
  { link.setWs ws fun ws => { ws with opened := true } with
    reconnectAttempts := 0
    pingTimer := some ws
    ticking := link.ticking ++ [ws] }

def closed (link : MessageLink) (ws : Nat) : MessageLink :=
  let link := link.setWs ws fun ws => { ws with closed := true }
  -- A socket already replaced must not schedule a second connection on its way out.
  if link.socket ≠ some ws then link
  else ({ link with socket := none }.cancelPing).scheduleReconnect

/-- The interval of a socket fires. -/
def ping (link : MessageLink) (ws : Nat) : MessageLink :=
  link.setWs ws fun socket =>
    if !socket.alive then { socket with terminated := true } else { socket with alive := false }

def stop (link : MessageLink) : MessageLink :=
  { link with enabled := false, reconnectTimer := false }.closeSocket

end MessageLink

/-! ### Reloads -/

/-- How far a reload is. -/
inductive ReloadPhase where
  /-- The course files are being read. -/
  | reading
  /-- The student's name is being resolved. -/
  | naming (inputs : StudentInputs)
  /-- The repository's name is being looked up. -/
  | locating
  /-- The configuration is applied. -/
  | applied
  | returned
  /-- It has thrown. -/
  | failed

structure Reload (Rules : Type) where
  /-- The connection key at its begin. -/
  before : Str
  phase : ReloadPhase
  /-- For the record: what the key was made of, whether no other reload was in flight
  then, and what the reload has read. -/
  under : Subscription
  first : Bool
  read : Option (Rules × Connection)
  student : Option Str

def Reload.inFlight {Rules : Type} (reload : Reload Rules) : Bool :=
  match reload.phase with
  | .returned | .failed => false
  | _ => true

/-- What the last reloads have applied. -/
structure Applied (Rules : Type) where
  rules : Rules
  connection : Connection
  student : Str
  studentSource : StudentSource
  repo : Str

/-- What a socket that is opened now is subscribed under. -/
def Applied.subscription {Rules : Type} (applied : Applied Rules) : Subscription :=
  { serverUrl := applied.connection.serverUrl
    token := applied.connection.token
    authProvider := applied.connection.authProvider
    student := applied.student }

/-- The texts joined by line breaks. -/
def Subscription.key (under : Subscription) : Str :=
  ['\n'].intercalate [under.serverUrl, under.token, under.authProvider, under.student]

structure Extension (Rules : Type) where
  link : MessageLink
  applied : Applied Rules
  /-- Every reload begun so far. -/
  reloads : List (Reload Rules)
  /-- The reload that a `start` in progress awaits. -/
  starting : Option Nat

namespace Extension

variable {Rules : Type}

inductive Event (Rules : Type) where
  | start
  /-- The reload of a `start` has ended. -/
  | resume
  | stop
  | reload
  /-- The course files are read: their rules, and the settings as they are then. -/
  | load (reload : Nat) (rules : Rules) (inputs : ConfigInputs)
  /-- The course files' contents make the reload throw, perhaps after the rules were
  replaced. -/
  | fail (reload : Nat) (rules : Option Rules)
  | name (reload : Nat) (gitEmail : Str)
  | locate (reload : Nat) (repo : Str)
  | finish (reload : Nat)
  | authenticated (attempt : Attempt) (identity : Option (Str × Str)) (constructed : Bool)
  | opened (ws : Nat)
  | closed (ws : Nat)
  | errored (ws : Nat)
  | pong (ws : Nat)
  | ping (ws : Nat)
  | reconnect

def initial (rules : Rules) : Extension Rules :=
  { link := .fresh
    applied :=
      { rules
        connection :=
          { serverUrl := [], token := [], authProvider := [], shareFileContents := true }
        student := []
        studentSource := .unknown
        repo := [] }
    reloads := []
    starting := none }

def beginReload (state : Extension Rules) : Extension Rules :=
  { state with
    reloads :=
      state.reloads ++
        [{ before := state.applied.subscription.key
           phase := .reading
           under := state.applied.subscription
           first := !state.reloads.any Reload.inFlight
           read := none
           student := none }] }

def reconnectMessages (state : Extension Rules) : Extension Rules :=
  { state with
    link := state.link.reconnectMessages state.applied.connection.token
      state.applied.connection.authProvider }

def setReload (state : Extension Rules) (reload : Nat) (value : Reload Rules) :
    Extension Rules :=
  { state with reloads := state.reloads.set reload value }

def step (state : Extension Rules) : Event Rules → Option (Extension Rules)
  | .start =>
      -- Starting twice would stack a second set of listeners on the first.
      if state.link.enabled || state.starting.isSome then some state
      else some { state.beginReload with starting := some state.reloads.length }
  | .resume =>
      match state.starting.bind fun reload => state.reloads[reload]? with
      | none => none
      | some reload =>
          match reload.phase with
          | .returned =>
              some { state with
                link.enabled := true
                starting := none }.reconnectMessages
          | .failed => some { state with starting := none }
          | _ => none
  | .stop => some { state with link := state.link.stop }
  | .reload => some state.beginReload
  | .load reload rules inputs =>
      match state.reloads[reload]? with
      | some call =>
          match call.phase with
          | .reading =>
              some ({ state with
                applied.rules := rules
                applied.connection := inputs.connection }.setReload reload
                  { call with
                    phase := .naming inputs.studentInputs
                    read := some (rules, inputs.connection) })
          | _ => none
      | none => none
  | .fail reload rules =>
      match state.reloads[reload]? with
      | some call =>
          match call.phase with
          | .reading =>
              some ({ state with applied.rules := rules.getD state.applied.rules }.setReload reload
                { call with phase := .failed })
          | _ => none
      | none => none
  | .name reload gitEmail =>
      match state.reloads[reload]? with
      | some call =>
          match call.phase with
          | .naming inputs =>
              let (value, source) := resolveStudent inputs gitEmail
              some ({ state with
                applied.student := value
                applied.studentSource := source }.setReload reload
                  { call with phase := .locating, student := some value })
          | _ => none
      | none => none
  | .locate reload repo =>
      match state.reloads[reload]? with
      | some call =>
          match call.phase with
          | .locating =>
              some ({ state with applied.repo := repo }.setReload reload
                { call with phase := .applied })
          | _ => none
      | none => none
  | .finish reload =>
      match state.reloads[reload]? with
      | some call =>
          match call.phase with
          | .applied =>
              let state := state.setReload reload { call with phase := .returned }
              if state.link.enabled && state.applied.subscription.key ≠ call.before then
                some state.reconnectMessages
              else some state
          | _ => none
      | none => none
  | .authenticated attempt identity constructed =>
      if attempt ∈ state.link.attempts then
        some { state with
          link := state.link.authenticated attempt state.applied.connection.serverUrl
            state.applied.student identity constructed }
      else none
  | .opened ws =>
      match state.link.sockets[ws]? with
      -- A socket that is closed or was terminated does not open.
      | some socket =>
          if !socket.opened && socket.live then
            some { state with link := state.link.opened ws }
          else none
      | none => none
  | .closed ws =>
      match state.link.sockets[ws]? with
      | some socket =>
          if !socket.closed then some { state with link := state.link.closed ws } else none
      | none => none
  | .errored ws =>
      if ws < state.link.sockets.length then
        some { state with link := state.link.terminate ws }
      else none
  | .pong ws =>
      if ws < state.link.sockets.length then
        some { state with link := state.link.setWs ws fun ws => { ws with alive := true } }
      else none
  | .ping ws =>
      if ws ∈ state.link.ticking then some { state with link := state.link.ping ws } else none
  | .reconnect =>
      if state.link.reconnectTimer then
        some { state with
          link := { state.link with reconnectTimer := false }.connectMessages
            state.applied.connection.token state.applied.connection.authProvider }
      else none

end Extension

end Hermione
