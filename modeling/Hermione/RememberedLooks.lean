import Hermione.Attention
import Hermione.Recency

/-!
# The looks that the dashboard remembers

The dashboard keeps, in the browser's storage, what a teacher saw of the files of a student:
of a few files, for a day.  An object literal keeps them by their paths, and a path may be
any string.
-/

namespace Hermione

namespace Since

namespace Remembered

/-- A bigger file is not kept. -/
def MAX_STORED_CHARS : Nat := 100000

/-- Files remembered per student. -/
def KEEP_PATHS : Nat := 8

/-- Yesterday's class is not "last time". -/
def MAX_AGE_MS : Int := 24 * 3600 * 1000

/-- What was on screen, and when. -/
structure Look where
  content : JsString
  time : Int
  deriving DecidableEq, Repr

/-- An object literal by its own properties, in the order in which they were added. -/
abbrev Looks := List (JsString × Look)

/-- A name that is a number below `2 ^ 32 - 1`, without a zero in front. -/
def arrayIndex (name : JsString) : Option Nat :=
  let value := name.foldl (fun value unit => value * 10 + (unit.toNat - 48)) 0
  if name ≠ [] ∧ name.all (fun unit => 48 ≤ unit && unit ≤ 57) ∧
      (name.head? = some 48 → name.length = 1) ∧ value < 2 ^ 32 - 1 then some value
  else none

/-- `Object.entries`, which lists such names first. -/
def entries (looks : Looks) : Looks :=
  ((looks.filter fun entry => (arrayIndex entry.1).isSome).mergeSort fun first second =>
    (arrayIndex first.1).getD 0 ≤ (arrayIndex second.1).getD 0) ++
      looks.filter fun entry => !(arrayIndex entry.1).isSome

/-- `looks[path] = look`.  What is set as `__proto__` becomes no property of the object. -/
def set (looks : Looks) (path : JsString) (look : Look) : Looks :=
  if path = js "__proto__" then looks
  else if path ∈ looks.map Prod.fst then
    looks.map fun entry => if entry.1 = path then (path, look) else entry
  else looks ++ [(path, look)]

def fresh (now : Int) (entry : JsString × Look) : Bool :=
  now - entry.2.time ≤ MAX_AGE_MS

/-- The stored object is one that `remember` wrote, or there is none. -/
def readAll (stored : Looks) (now : Int) : Looks :=
  (entries stored).filter (fresh now)

/-- What is stored after a call of `remember`, of a store that accepts what is written. -/
def remember (stored : Looks) (path content : JsString) (now : Int) : Looks :=
  if content.length > MAX_STORED_CHARS then stored
  else
    ((entries (set (readAll stored now) path ⟨content, now⟩)).mergeSort fun first second =>
      second.2.time - first.2.time ≤ 0).take KEEP_PATHS

/-- What `recall` answers: an object also has what every object inherits. -/
inductive Recalled where
  | null
  | look (look : Look)
  | inherited
  deriving DecidableEq, Repr

def recall' (stored : Looks) (path : JsString) (now : Int) : Recalled :=
  match (readAll stored now).find? fun entry => entry.1 = path with
  | some entry => .look entry.2
  | none =>
      if path ∈ Attention.inherited ∨ path = js "__proto__" then .inherited else .null

/-! ### Calls -/

/-- What is stored after some calls of `remember`, each by its path and the look that it
would keep, beginning with nothing. -/
def stored (calls : Looks) : Looks :=
  calls.foldl (fun stored call => remember stored call.1 call.2.content call.2.time) []

/-- A call that keeps the look. -/
def Kept (call : JsString × Look) : Prop :=
  call.2.content.length ≤ MAX_STORED_CHARS ∧ call.1 ≠ js "__proto__"

instance (call : JsString × Look) : Decidable (Kept call) :=
  inferInstanceAs (Decidable (_ ∧ _))

def kept (calls : Looks) : Looks :=
  calls.filter Kept

/-- The last look that was kept of a file, if few files were kept after it and it is not a
day old. -/
def Stands (calls : Looks) (now : Int) (path : JsString) (look : Look) : Prop :=
  ∃ after, Recency.LastOf Prod.fst (kept calls) (path, look) after ∧
    (after.map Prod.fst).dedup.length < KEEP_PATHS ∧ now - look.time ≤ MAX_AGE_MS

/-- Nothing is recalled of a file but what it was at the last look. -/
def RecallsLast (calls : Looks) (now : Int) (path : JsString) : Prop :=
  recall' (stored calls) path now = .null ∨
    ∃ look after found, Recency.LastOf Prod.fst calls (path, look) after ∧
      recall' (stored calls) path now = .look found ∧ found.content = look.content

/-- The last look at a file is recalled if the file is not too big, until a day or eight
other files have come after it. -/
def RecallsRecent (calls : Looks) (now : Int) (path : JsString) : Prop :=
  ∀ look after, Recency.LastOf Prod.fst calls (path, look) after →
    look.content.length ≤ MAX_STORED_CHARS →
    ((kept after).map Prod.fst).dedup.length < KEEP_PATHS → now - look.time < MAX_AGE_MS →
    recall' (stored calls) path now = .look look

end Remembered

end Since

end Hermione
