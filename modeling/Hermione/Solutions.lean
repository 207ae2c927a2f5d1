import Mathlib.Data.List.Basic
import Mathlib.Logic.Function.Basic
import Hermione.SnapshotStore

/-!
# Reference solutions, read once and remembered for a while

Every file has a slot: a lock and what was last read under it.  A reader is
handed its file's slot under the lock of the map, and locks the slot only
afterwards.  A full map is swept when a slot is asked for, and the sweep tells
the slots in use by trying their locks.

Readers run concurrently, so a state holds where each of them is, and each event
is what one reader does between two of its awaits.  The lock is fair: its
readers stand in line, and whoever is first in line holds it.
-/

namespace Hermione

open EventRuns

/-- Why a file couldn't be read. -/
inductive FetchError where
  | denied
  | repoOrRefNotFound
  | rateLimited
  | tooLarge
  | notText
  | unavailable
  deriving DecidableEq, Repr

/-- The file a reader asks for: a repository on GitHub, a branch, tag or commit
when one is set, and a path. -/
structure SolutionKey where
  owner : Str
  name : Str
  gitRef : Option Str
  path : Str
  deriving DecidableEq

namespace Solutions

/-- How long a file that was read is believed. -/
def foundTtl : Nat := 300 * 10 ^ 9

/-- How long "there is no such file" is believed. -/
def missingTtl : Nat := 60 * 10 ^ 9

/-- How long a failure is believed. -/
def failedTtl : Nat := 20 * 10 ^ 9

/-- Entries kept before expired ones are swept out. -/
def sweepAt : Nat := 512

/-- What was found: the solution's text, or that there is none for this file. -/
abbrev Outcome := Except FetchError (Option Str)

structure Entry where
  fetchedAt : Nat
  outcome : Outcome

def Entry.fresh (entry : Entry) (now : Nat) : Bool :=
  let ttl :=
    match entry.outcome with
    | .ok (some _) => foundTtl
    | .ok none => missingTtl
    | .error _ => failedTtl
  elapsed now entry.fetchedAt < ttl

/-- What a slot's number stands for: the readers holding or awaiting its lock,
and the entry under it. -/
structure Cell where
  line : List Nat
  entry : Option Entry

/-- A slot nobody has locked yet. -/
def Cell.unread : Cell :=
  { line := [], entry := none }

/-- A reader lets go of the lock, or stops waiting for it. -/
def Cell.leave (cell : Cell) (reader : Nat) : Cell :=
  { cell with line := cell.line.erase reader }

/-- What a sweep keeps: slots in use, and those whose entry is still believed. -/
def Cell.keeps (cell : Cell) (now : Nat) : Bool :=
  match cell.line with
  | [] => cell.entry.any fun entry => entry.fresh now
  | _ :: _ => true

/-- How far a call of `read` is. -/
inductive Reading (Key : Type*) where
  | idle
  /-- It holds the slot and has not asked for its lock. -/
  | handed (key : Key) (slot : Nat)
  /-- It holds or awaits the lock, and has not looked at the entry. -/
  | queued (key : Key) (slot : Nat)
  /-- It holds the lock and GitHub has not answered. -/
  | fetching (key : Key) (slot : Nat)
  | answered (key : Key) (outcome : Outcome) (instant : Nat)
  /-- Its request went away. -/
  | dropped

/-- The key and the slot of a call that has not returned. -/
def Reading.underWay {Key : Type*} : Reading Key → Option (Key × Nat)
  | .handed key slot | .queued key slot | .fetching key slot => some (key, slot)
  | .idle | .answered _ _ _ | .dropped => none

end Solutions

/-- The cache, and everyone reading from it. -/
structure Solutions (Key : Type*) where
  now : Nat
  slots : AList fun _ : Key => Nat
  cells : Nat → Solutions.Cell
  /-- How many slots were ever made. -/
  made : Nat
  readers : Nat → Solutions.Reading Key

namespace Solutions

variable {Key : Type*}

def start : Solutions Key :=
  { now := 0
    slots := ∅
    cells := fun _ => .unread
    made := 0
    readers := fun _ => .idle }

def put (cache : Solutions Key) (reader : Nat) (reading : Reading Key) : Solutions Key :=
  { cache with readers := Function.update cache.readers reader reading }

def write (cache : Solutions Key) (slot : Nat) (cell : Cell) : Solutions Key :=
  { cache with cells := Function.update cache.cells slot cell }

variable [DecidableEq Key]

/-- The map as a sweep leaves it, when it is full enough for one. -/
def swept (cache : Solutions Key) : AList fun _ : Key => Nat :=
  if sweepAt ≤ cache.slots.size then
    cache.slots.retain fun _ slot => (cache.cells slot).keeps cache.now
  else cache.slots

/-- The slot of a key. -/
def slot (cache : Solutions Key) (key : Key) : Solutions Key × Nat :=
  match cache.swept.lookup key with
  | some slot => ({ cache with slots := cache.swept }, slot)
  | none =>
      ({ cache with slots := cache.swept.insert key cache.made, made := cache.made + 1 },
        cache.made)

inductive Event (Key : Type*) where
  | read (reader : Nat) (key : Key)
  | lock (reader : Nat)
  /-- First in line, the reader looks at the entry. -/
  | look (reader : Nat)
  | fetched (reader : Nat) (outcome : Outcome)
  /-- Nobody awaits the call's answer any more. -/
  | drop (reader : Nat)
  | tick (span : Nat)

def step (cache : Solutions Key) : Event Key → Option (Solutions Key)
  | .read reader key =>
      match cache.readers reader with
      | .idle =>
          let (handing, slot) := cache.slot key
          some (handing.put reader (.handed key slot))
      | _ => none
  | .lock reader =>
      match cache.readers reader with
      | .handed key slot =>
          let cell := cache.cells slot
          let joined := { cell with line := cell.line ++ [reader] }
          some ((cache.write slot joined).put reader (.queued key slot))
      | _ => none
  | .look reader =>
      match cache.readers reader with
      | .queued key slot =>
          let cell := cache.cells slot
          if cell.line.head? = some reader then
            match cell.entry.filter fun entry => entry.fresh cache.now with
            | some entry =>
                some ((cache.write slot (cell.leave reader)).put reader
                  (.answered key entry.outcome cache.now))
            | none => some (cache.put reader (.fetching key slot))
          else none
      | _ => none
  | .fetched reader outcome =>
      match cache.readers reader with
      | .fetching key slot =>
          let cell := cache.cells slot
          let filled := { cell with entry := some { fetchedAt := cache.now, outcome } }
          some ((cache.write slot (filled.leave reader)).put reader
            (.answered key outcome cache.now))
      | _ => none
  | .drop reader =>
      match cache.readers reader with
      | .handed _ _ => some (cache.put reader .dropped)
      | .queued _ slot | .fetching _ slot =>
          some ((cache.write slot ((cache.cells slot).leave reader)).put reader .dropped)
      | _ => none
  | .tick span => some { cache with now := cache.now + span }

/-- The key and the slot of a reader whose call has not returned. -/
def underWay (cache : Solutions Key) (reader : Nat) : Option (Key × Nat) :=
  (cache.readers reader).underWay

/-- A reader has asked GitHub for a key and has no answer yet. -/
def InFlight (cache : Solutions Key) (key : Key) (reader : Nat) : Prop :=
  ∃ slot, cache.readers reader = .fetching key slot

/-- No two requests for one key are on their way to GitHub. -/
def SingleFlight (cache : Solutions Key) : Prop :=
  ∀ key first second, cache.InFlight key first → cache.InFlight key second → first = second

end Solutions

end Hermione
