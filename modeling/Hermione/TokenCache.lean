import Mathlib.Algebra.Group.Int.Defs
import Mathlib.Logic.Function.Basic
import Hermione.EventRuns
import Hermione.FairLock
import Hermione.Text

/-!
# The tokens of a GitHub App

An installation token is minted for one repository and used until shortly before
GitHub stops honouring it.  Every repository has a slot, whose lock is held while
a token is being minted.  Slots are never taken away, so a slot is known by its
repository here.

Callers run concurrently: a state holds where each of them is, and each event is
what one caller does between two of its awaits, or the clock being set.
-/

namespace Hermione

open EventRuns

/-- Lower-cased owner and repository. -/
abbrev RepoKey := Str × Str

/-- GitHub treats owner and repo names case-insensitively. -/
def repoKey (owner repo : Str) : RepoKey :=
  (owner.toAsciiLowercase, repo.toAsciiLowercase)

/-- An installation token and when GitHub stops honouring it. -/
structure Minted where
  token : Str
  expiresAt : Int
  deriving DecidableEq

/-- How long before its expiry a token is no longer handed out, in nanoseconds. -/
def EXPIRY_MARGIN : Int :=
  60 * 10 ^ 9

namespace TokenCache

/-- The callers holding or awaiting a slot's lock, and the token under it. -/
structure Cell where
  line : List Nat
  minted : Option Minted

/-- The token of a slot, unless it is about to expire. -/
def Cell.usable (cell : Cell) (now : Int) : Option Minted :=
  cell.minted.filter fun minted => now < minted.expiresAt - EXPIRY_MARGIN

/-- A caller lets go of the lock, or stops waiting for it. -/
def Cell.leave (cell : Cell) (caller : Nat) : Cell :=
  { cell with line := cell.line.erase caller }

/-- How far a call of `get_or_mint` is. -/
inductive Calling where
  | idle
  /-- It holds the slot and has not asked for its lock. -/
  | handed (owner repo : Str)
  /-- It holds or awaits the lock, and has not looked at the token. -/
  | queued (owner repo : Str)
  /-- It holds the lock, found no usable token at some time, and mints one. -/
  | minting (owner repo : Str) (found : Int)
  | returned (owner repo : Str) (answer : Except Str Str)
  /-- Its request went away. -/
  | dropped

/-- What a caller is to the lock of a slot. -/
def Calling.stance (key : RepoKey) : Calling → FairLock.Stance
  | .queued owner repo => if repoKey owner repo = key then .waiting else .away
  | .minting owner repo _ => if repoKey owner repo = key then .holding else .away
  | .idle | .handed _ _ | .returned _ _ _ | .dropped => .away

end TokenCache

/-- The tokens, and everyone asking for one. -/
structure TokenCache where
  now : Int
  cells : RepoKey → TokenCache.Cell
  callers : Nat → TokenCache.Calling

namespace TokenCache

def start (now : Int) : TokenCache :=
  { now
    cells := fun _ => { line := [], minted := none }
    callers := fun _ => .idle }

def put (cache : TokenCache) (caller : Nat) (calling : Calling) : TokenCache :=
  { cache with callers := Function.update cache.callers caller calling }

def write (cache : TokenCache) (key : RepoKey) (cell : Cell) : TokenCache :=
  { cache with cells := Function.update cache.cells key cell }

inductive Event where
  | call (caller : Nat) (owner repo : Str)
  | lock (caller : Nat)
  /-- First in line, the caller looks at the token. -/
  | look (caller : Nat)
  /-- GitHub answered: with a token, or it could not be minted. -/
  | minted (caller : Nat) (answer : Except Str Minted)
  /-- Nobody awaits the call's answer any more. -/
  | drop (caller : Nat)
  | clock (now : Int)

def step (cache : TokenCache) : Event → Option TokenCache
  | .call caller owner repo =>
      match cache.callers caller with
      | .idle => some (cache.put caller (.handed owner repo))
      | _ => none
  | .lock caller =>
      match cache.callers caller with
      | .handed owner repo =>
          let cell := cache.cells (repoKey owner repo)
          let joined := { cell with line := cell.line ++ [caller] }
          some ((cache.write (repoKey owner repo) joined).put caller (.queued owner repo))
      | _ => none
  | .look caller =>
      match cache.callers caller with
      | .queued owner repo =>
          let cell := cache.cells (repoKey owner repo)
          if cell.line.head? = some caller then
            match cell.usable cache.now with
            | some minted =>
                some ((cache.write (repoKey owner repo) (cell.leave caller)).put caller
                  (.returned owner repo (.ok minted.token)))
            | none => some (cache.put caller (.minting owner repo cache.now))
          else none
      | _ => none
  | .minted caller answer =>
      match cache.callers caller with
      | .minting owner repo _ =>
          let cell := cache.cells (repoKey owner repo)
          match answer with
          | .ok minted =>
              let filled := { cell with minted := some minted }
              some ((cache.write (repoKey owner repo) (filled.leave caller)).put caller
                (.returned owner repo (.ok minted.token)))
          -- The token under the lock, if there is one, stays what it was.
          | .error error =>
              some ((cache.write (repoKey owner repo) (cell.leave caller)).put caller
                (.returned owner repo (.error error)))
      | _ => none
  | .drop caller =>
      match cache.callers caller with
      | .handed _ _ => some (cache.put caller .dropped)
      | .queued owner repo | .minting owner repo _ =>
          let cell := cache.cells (repoKey owner repo)
          some ((cache.write (repoKey owner repo) (cell.leave caller)).put caller .dropped)
      | _ => none
  | .clock now => some { cache with now }

/-- A caller has asked GitHub for a token and has no answer yet. -/
def InFlight (cache : TokenCache) (key : RepoKey) (caller : Nat) : Prop :=
  ∃ owner repo found, cache.callers caller = .minting owner repo found ∧ repoKey owner repo = key

/-- No two tokens are being minted for one repository. -/
def SingleMint (cache : TokenCache) : Prop :=
  ∀ key first second, cache.InFlight key first → cache.InFlight key second → first = second

/-- What an event does. -/
inductive Moved (cache : TokenCache) : Event → TokenCache → Prop where
  | called {caller : Nat} {owner repo : Str} (idle : cache.callers caller = .idle) :
      Moved cache (.call caller owner repo) (cache.put caller (.handed owner repo))
  | locked {caller : Nat} {owner repo : Str} (phase : cache.callers caller = .handed owner repo) :
      Moved cache (.lock caller)
        ((cache.write (repoKey owner repo) { cache.cells (repoKey owner repo) with
            line := (cache.cells (repoKey owner repo)).line ++ [caller] }).put caller
          (.queued owner repo))
  | taken {caller : Nat} {owner repo : Str} {minted : Minted}
      (phase : cache.callers caller = .queued owner repo)
      (usable : (cache.cells (repoKey owner repo)).usable cache.now = some minted) :
      Moved cache (.look caller)
        ((cache.write (repoKey owner repo) ((cache.cells (repoKey owner repo)).leave caller)).put
          caller (.returned owner repo (.ok minted.token)))
  | missed {caller : Nat} {owner repo : Str} (phase : cache.callers caller = .queued owner repo)
      (first : (cache.cells (repoKey owner repo)).line.head? = some caller)
      (none : (cache.cells (repoKey owner repo)).usable cache.now = none) :
      Moved cache (.look caller) (cache.put caller (.minting owner repo cache.now))
  | minted {caller : Nat} {owner repo : Str} {found : Int} {minted : Minted}
      (phase : cache.callers caller = .minting owner repo found) :
      Moved cache (.minted caller (.ok minted))
        ((cache.write (repoKey owner repo)
            { line := (cache.cells (repoKey owner repo)).line.erase caller
              minted := some minted }).put caller (.returned owner repo (.ok minted.token)))
  | failed {caller : Nat} {owner repo : Str} {found : Int} {error : Str}
      (phase : cache.callers caller = .minting owner repo found) :
      Moved cache (.minted caller (.error error))
        ((cache.write (repoKey owner repo) ((cache.cells (repoKey owner repo)).leave caller)).put
          caller (.returned owner repo (.error error)))
  | dropped {caller : Nat} : Moved cache (.drop caller) (cache.put caller .dropped)
  | left {caller : Nat} {key : RepoKey} :
      Moved cache (.drop caller)
        ((cache.write key ((cache.cells key).leave caller)).put caller .dropped)
  | clock {now : Int} : Moved cache (.clock now) { cache with now }

theorem moved_of_step {cache next : TokenCache} {event : Event}
    (stepped : step cache event = some next) : Moved cache event next := by
  cases event with
  | call caller owner repo =>
      simp only [step] at stepped
      split at stepped
      · next idle =>
          cases stepped
          exact .called idle
      · cases stepped
  | lock caller =>
      simp only [step] at stepped
      split at stepped
      · next phase =>
          cases stepped
          exact .locked phase
      · cases stepped
  | look caller =>
      simp only [step] at stepped
      split at stepped
      · next phase =>
          split at stepped
          · next first =>
              split at stepped
              · next usable =>
                  cases stepped
                  exact .taken phase usable
              · next none =>
                  cases stepped
                  exact .missed phase first none
          · cases stepped
      · cases stepped
  | minted caller answer =>
      simp only [step] at stepped
      split at stepped
      · next phase =>
          cases answer with
          | ok minted =>
              cases stepped
              exact .minted phase
          | error error =>
              cases stepped
              exact .failed phase
      · cases stepped
  | drop caller =>
      simp only [step] at stepped
      split at stepped
      all_goals cases stepped
      · exact .dropped
      · exact .left
      · exact .left
  | clock now =>
      cases stepped
      exact .clock

end TokenCache

end Hermione
