import Hermione.EventRuns
import Hermione.Solutions
import Hermione.Utf16

/-!
# One request for one solution

Readers of the same file queue on its slot, so one of them asks GitHub and the
others take its answer.  That needs them all to have the same slot.  A sweep
takes away slots that are not locked and hold nothing fresh, also one that a
reader was handed and is about to lock; the next reader of that file is given
another slot and does not wait for the first.
-/

namespace Hermione

open EventRuns

namespace Solutions

variable {Key : Type*}

@[simp]
theorem readers_put_self (cache : Solutions Key) (reader : Nat) (reading : Reading Key) :
    (cache.put reader reading).readers reader = reading :=
  Function.update_self ..

@[simp]
theorem readers_put_of_ne {reader other : Nat} (different : other ≠ reader)
    (cache : Solutions Key) (reading : Reading Key) :
    (cache.put reader reading).readers other = cache.readers other :=
  Function.update_of_ne different ..

@[simp]
theorem underWay_put_self (cache : Solutions Key) (reader : Nat) (reading : Reading Key) :
    (cache.put reader reading).underWay reader = reading.underWay := by
  rw [underWay, readers_put_self]

@[simp]
theorem underWay_put_of_ne {reader other : Nat} (different : other ≠ reader)
    (cache : Solutions Key) (reading : Reading Key) :
    (cache.put reader reading).underWay other = cache.underWay other := by
  rw [underWay, readers_put_of_ne different, underWay]

@[simp]
theorem underWay_write (cache : Solutions Key) (slot : Nat) (cell : Cell) :
    (cache.write slot cell).underWay = cache.underWay :=
  rfl

@[simp]
theorem slots_put (cache : Solutions Key) (reader : Nat) (reading : Reading Key) :
    (cache.put reader reading).slots = cache.slots :=
  rfl

/-- A reader that moves on keeps its key and slot until it returns. -/
theorem underWay_put {cache : Solutions Key} {reader other : Nat} {reading : Reading Key}
    {place : Key × Nat}
    (onward : ∀ place, reading.underWay = some place → cache.underWay reader = some place)
    (going : (cache.put reader reading).underWay other = some place) :
    cache.underWay other = some place := by
  by_cases same : other = reader
  · subst same
    rw [underWay_put_self] at going
    exact onward place going
  · rwa [underWay_put_of_ne same] at going

variable [DecidableEq Key]

@[simp]
theorem underWay_slot (cache : Solutions Key) (key : Key) :
    (cache.slot key).1.underWay = cache.underWay := by
  unfold slot
  split <;> rfl

@[simp]
theorem readers_slot (cache : Solutions Key) (key : Key) :
    (cache.slot key).1.readers = cache.readers := by
  unfold slot
  split <;> rfl

@[simp]
theorem cells_slot (cache : Solutions Key) (key : Key) :
    (cache.slot key).1.cells = cache.cells := by
  unfold slot
  split <;> rfl

/-- A sweep only takes away. -/
theorem lookup_of_swept {cache : Solutions Key} {key : Key} {slot : Nat}
    (kept : cache.swept.lookup key = some slot) :
    cache.slots.lookup key = some slot := by
  unfold swept at kept
  split at kept
  · rw [AList.lookup_retain, Option.filter_eq_some_iff] at kept
    exact kept.1
  · exact kept

/-- After a key was asked for, the map holds its slot, and for other keys what
the sweep left. -/
theorem lookup_slot (cache : Solutions Key) (key other : Key) :
    (cache.slot key).1.slots.lookup other =
      if other = key then some (cache.slot key).2 else cache.swept.lookup other := by
  unfold slot
  split
  · rename_i slot found
    split
    · next same => rw [same, found]
    · rfl
  · split
    · next same =>
        rw [same]
        exact AList.lookup_insert _
    · next different => exact AList.lookup_insert_ne different

/-! ### What an event does -/

theorem step_read {cache next : Solutions Key} {reader : Nat} {key : Key}
    (moved : step cache (.read reader key) = some next) :
    cache.underWay reader = none ∧
      next = (cache.slot key).1.put reader (.handed key (cache.slot key).2) := by
  simp only [step] at moved
  split at moved
  · next phase =>
      refine ⟨by rw [underWay, phase, Reading.underWay], ?_⟩
      exact (Option.some.inj moved).symm
  · cases moved

def Event.reads : Event Key → Bool
  | .read _ _ => true
  | _ => false

/-- Only a read touches the map, and only a read sets out. -/
theorem step_onward {cache next : Solutions Key} {event : Event Key}
    (onward : event.reads = false) (moved : step cache event = some next) :
    next.slots = cache.slots ∧
      ∀ reader place, next.underWay reader = some place →
        cache.underWay reader = some place := by
  cases event with
  | read reader key => cases onward
  | lock reader =>
      simp only [step] at moved
      split at moved
      · next key slot phase =>
          cases moved
          refine ⟨rfl, fun other place => underWay_put ?_⟩
          intro place going
          rw [underWay_write, underWay, phase]
          exact going
      · cases moved
  | look reader =>
      simp only [step] at moved
      split at moved
      · next key slot phase =>
          split at moved
          · split at moved
            · cases moved
              refine ⟨rfl, fun other place => underWay_put ?_⟩
              intro place going
              cases going
            · cases moved
              refine ⟨rfl, fun other place => underWay_put ?_⟩
              intro place going
              rw [underWay, phase]
              exact going
          · cases moved
      · cases moved
  | fetched reader outcome =>
      simp only [step] at moved
      split at moved
      · cases moved
        refine ⟨rfl, fun other place => underWay_put ?_⟩
        intro place going
        cases going
      · cases moved
  | drop reader =>
      simp only [step] at moved
      split at moved
      all_goals cases moved
      all_goals
        refine ⟨rfl, fun other place => underWay_put ?_⟩
        intro place going
        cases going
  | tick span =>
      cases moved
      exact ⟨rfl, fun _ _ going => going⟩

/-! ### Who stands in line -/

/-- A reader that asked for the lock is in line; one that asks GitHub is first. -/
def Stands (line : List Nat) (reader : Nat) : Reading Key → Prop
  | .queued _ _ => reader ∈ line
  | .fetching _ _ => line.head? = some reader
  | _ => True

def Lined (cache : Solutions Key) : Prop :=
  ∀ reader key slot, cache.underWay reader = some (key, slot) →
    Stands (cache.cells slot).line reader (cache.readers reader)

omit [DecidableEq Key] in
theorem stands_append {line rest : List Nat} {reader : Nat} {reading : Reading Key}
    (stands : Stands line reader reading) :
    Stands (line ++ rest) reader reading := by
  cases reading with
  | queued key slot => exact List.mem_append_left rest stands
  | fetching key slot =>
      simp only [Stands] at stands ⊢
      rw [List.head?_append, stands]
      rfl
  | _ => trivial

omit [DecidableEq Key] in
theorem stands_erase {line : List Nat} {reader other : Nat} {reading : Reading Key}
    (different : other ≠ reader) (stands : Stands line other reading) :
    Stands (line.erase reader) other reading := by
  cases reading with
  | queued key slot => exact (List.mem_erase_of_ne different).mpr stands
  | fetching key slot =>
      cases line with
      | nil => cases stands
      | cons head rest =>
          cases stands
          simp [Stands, different]
  | _ => trivial

omit [DecidableEq Key] in
theorem lined_put {cache : Solutions Key} {reader : Nat} {reading : Reading Key}
    (holds : cache.Lined)
    (own : ∀ key slot, reading.underWay = some (key, slot) →
      Stands (cache.cells slot).line reader reading) :
    (cache.put reader reading).Lined := by
  intro other key place way
  by_cases same : other = reader
  · subst same
    rw [underWay_put_self] at way
    rw [readers_put_self]
    exact own key place way
  · rw [underWay_put_of_ne same] at way
    rw [readers_put_of_ne same]
    exact holds other key place way

omit [DecidableEq Key] in
/-- A slot is written without disturbing the others in its line. -/
theorem lined_write {cache : Solutions Key} {reader slot : Nat} {cell : Cell}
    {reading : Reading Key} (holds : cache.Lined)
    (own : ∀ key place, reading.underWay = some (key, place) →
      place = slot ∧ Stands cell.line reader reading)
    (others : ∀ other (phase : Reading Key), other ≠ reader →
      Stands (cache.cells slot).line other phase → Stands cell.line other phase) :
    ((cache.write slot cell).put reader reading).Lined := by
  intro other key place way
  change Stands (Function.update cache.cells slot cell place).line other _
  by_cases same : other = reader
  · subst same
    rw [underWay_put_self] at way
    obtain ⟨rfl, stands⟩ := own key place way
    rwa [Function.update_self, readers_put_self]
  · rw [underWay_put_of_ne same] at way
    rw [readers_put_of_ne same]
    have stands := holds other key place way
    by_cases here : place = slot
    · subst here
      rw [Function.update_self]
      exact others other _ same stands
    · rwa [Function.update_of_ne here]

theorem lined_step {cache next : Solutions Key} {event : Event Key}
    (holds : cache.Lined) (moved : step cache event = some next) :
    next.Lined := by
  cases event with
  | read reader key =>
      obtain ⟨-, rfl⟩ := step_read moved
      apply lined_put
      · intro other key' slot way
        rw [underWay_slot] at way
        rw [cells_slot, readers_slot]
        exact holds other key' slot way
      · intro key' slot way
        trivial
  | lock reader =>
      simp only [step] at moved
      split at moved
      · cases moved
        apply lined_write holds
        · intro key place way
          cases way
          exact ⟨rfl, List.mem_append_right _ List.mem_cons_self⟩
        · intro other phase different
          exact stands_append
      · cases moved
  | look reader =>
      simp only [step] at moved
      split at moved
      · split at moved
        · next first =>
            split at moved
            · cases moved
              apply lined_write holds _ fun _ _ => stands_erase
              intro key place way
              cases way
            · cases moved
              apply lined_put holds
              intro key place way
              cases way
              exact first
        · cases moved
      · cases moved
  | fetched reader outcome =>
      simp only [step] at moved
      split at moved
      · cases moved
        apply lined_write holds _ fun _ _ => stands_erase
        intro key place way
        cases way
      · cases moved
  | drop reader =>
      simp only [step] at moved
      split at moved
      · cases moved
        apply lined_put holds
        intro key place way
        cases way
      · cases moved
        apply lined_write holds _ fun _ _ => stands_erase
        intro key place way
        cases way
      · cases moved
        apply lined_write holds _ fun _ _ => stands_erase
        intro key place way
        cases way
      · cases moved
  | tick span =>
      cases moved
      exact holds

omit [DecidableEq Key] in
/-- Whoever asks GitHub holds the lock of its slot. -/
theorem head_of_inFlight {cache : Solutions Key} (lined : cache.Lined) {key : Key}
    {reader : Nat} (flying : cache.InFlight key reader) :
    ∃ slot, cache.underWay reader = some (key, slot) ∧
      (cache.cells slot).line.head? = some reader := by
  obtain ⟨slot, phase⟩ := flying
  have way : cache.underWay reader = some (key, slot) := by
    rw [underWay, phase, Reading.underWay]
  have stands := lined reader key slot way
  rw [phase] at stands
  exact ⟨slot, way, stands⟩

/-! ### One slot for the readers of a key -/

/-- Readers of one key have one slot, the one the map holds if it holds any. -/
structure Shared (cache : Solutions Key) : Prop where
  bound : ∀ reader key slot other, cache.underWay reader = some (key, slot) →
    cache.slots.lookup key = some other → slot = other
  alike : ∀ first second key slot other, cache.underWay first = some (key, slot) →
    cache.underWay second = some (key, other) → slot = other

/-- Where a read finds no slot for its key, nobody is reading that key. -/
def SlotKept (cache : Solutions Key) : Event Key → Prop
  | .read _ key =>
      cache.swept.lookup key = none →
        ∀ reader slot, cache.underWay reader ≠ some (key, slot)
  | _ => True

/-- The slot a reader is handed is that of the others that read its key. -/
theorem slot_eq_of_underWay {cache : Solutions Key} {reader other : Nat} {key : Key}
    {slot : Nat} (shared : cache.Shared) (kept : cache.SlotKept (.read reader key))
    (going : cache.underWay other = some (key, slot)) :
    (cache.slot key).2 = slot := by
  unfold Solutions.slot
  split
  · next found =>
      exact (shared.bound other key slot _ going (lookup_of_swept found)).symm
  · next missing => exact absurd going (kept missing other slot)

theorem shared_read {cache next : Solutions Key} {reader : Nat} {key : Key}
    (shared : cache.Shared) (kept : cache.SlotKept (.read reader key))
    (moved : step cache (.read reader key) = some next) :
    next.Shared := by
  obtain ⟨-, rfl⟩ := step_read moved
  have going : ∀ other place,
      ((cache.slot key).1.put reader (.handed key (cache.slot key).2)).underWay other =
        some place →
      place = (key, (cache.slot key).2) ∨ cache.underWay other = some place := by
    intro other place going
    by_cases same : other = reader
    · subst same
      rw [underWay_put_self] at going
      exact .inl (Option.some.inj going).symm
    · rw [underWay_put_of_ne same, underWay_slot] at going
      exact .inr going
  constructor
  · intro other key' slot bound way found
    rw [slots_put, lookup_slot] at found
    split at found
    · next same =>
        subst same
        cases found
        rcases going other _ way with new | before
        · cases new
          rfl
        · exact (slot_eq_of_underWay shared kept before).symm
    · next different =>
        rcases going other _ way with new | before
        · cases new
          exact absurd rfl different
        · exact shared.bound other key' slot bound before (lookup_of_swept found)
  · intro first second key' slot other one two
    rcases going first _ one with new | before
    · cases new
      rcases going second _ two with new' | before'
      · cases new'
        rfl
      · exact slot_eq_of_underWay shared kept before'
    · rcases going second _ two with new' | before'
      · cases new'
        exact (slot_eq_of_underWay shared kept before).symm
      · exact shared.alike first second key' slot other before before'

theorem shared_step {cache next : Solutions Key} {event : Event Key}
    (shared : cache.Shared) (kept : cache.SlotKept event)
    (moved : step cache event = some next) :
    next.Shared := by
  cases reads : event.reads with
  | true =>
      cases event with
      | read reader key => exact shared_read shared kept moved
      | _ => cases reads
  | false =>
      obtain ⟨slots, onward⟩ := step_onward reads moved
      constructor
      · intro reader key slot other way found
        rw [slots] at found
        exact shared.bound reader key slot other (onward reader _ way) found
      · intro first second key slot other one two
        exact shared.alike first second key slot other (onward first _ one)
          (onward second _ two)

theorem shared_start : (start : Solutions Key).Shared := by
  constructor
  · intro reader key slot other way
    cases way
  · intro first second key slot other way
    cases way

omit [DecidableEq Key] in
theorem lined_start : (start : Solutions Key).Lined := by
  intro reader key slot way
  cases way

/-- In every run whose reads find the slot of a key that is being read, at most
one request for a key is on its way to GitHub. -/
theorem single_flight {events : List (Event Key)} {cache : Solutions Key}
    (kept : Guarded step SlotKept start events) (ran : run step start events = some cache) :
    cache.SingleFlight := by
  have shared : cache.Shared :=
    invariant_of_guarded (fun _ _ _ => shared_step) shared_start kept ran
  have lined : cache.Lined :=
    invariant_of_run (fun _ _ _ => lined_step) lined_start ran
  intro key first second one two
  obtain ⟨slot, way, head⟩ := head_of_inFlight lined one
  obtain ⟨other, way', head'⟩ := head_of_inFlight lined two
  have same : slot = other := shared.alike first second key slot other way way'
  rw [same, head'] at head
  exact (Option.some.inj head).symm

/-- The file that the reader of a number asks for, in one repository. -/
def numbered (number : Nat) : SolutionKey :=
  { owner := "acme".toList
    name := "cs101".toList
    gitRef := none
    path := [Char.ofNat (0x4E00 + number)] }

/-- Two readers of a missing file: the second waits for the first one's answer. -/
theorem single_flight_together :
    ∃ cache : Solutions SolutionKey,
      run step start [.read 0 (numbered 0), .read 1 (numbered 0), .lock 0, .lock 1, .look 0] =
        some cache ∧
      cache.InFlight (numbered 0) 0 ∧ cache.SingleFlight := by
  have ran : ∃ cache : Solutions SolutionKey,
      run step start [.read 0 (numbered 0), .read 1 (numbered 0), .lock 0, .lock 1, .look 0] =
          some cache ∧ cache.InFlight (numbered 0) 0 :=
    ⟨_, rfl, 0, rfl⟩
  obtain ⟨cache, ran, flying⟩ := ran
  refine ⟨cache, ran, flying, single_flight ?_ ran⟩
  refine ⟨fun _ reader slot way => ?_, fun next moved => ⟨fun missing => ?_, fun _ _ => ?_⟩⟩
  · cases way
  · cases moved
    cases missing
  · simp [Guarded, SlotKept]

/-! ### What takes a slot from its readers -/

/-- A sweep finds every slot that a reader was handed and has not locked yet in
use by another, or with a fresh entry. -/
def SweepSpares (cache : Solutions Key) : Event Key → Prop
  | .read _ _ =>
      sweepAt ≤ cache.slots.size →
        ∀ reader key slot, cache.readers reader = .handed key slot →
          (cache.cells slot).keeps cache.now
  | _ => True

/-- Every reader's key is bound to its slot. -/
def Settled (cache : Solutions Key) : Prop :=
  ∀ reader key slot, cache.underWay reader = some (key, slot) →
    cache.slots.lookup key = some slot

omit [DecidableEq Key] in
/-- A slot with readers in line is in use. -/
theorem keeps_of_stands {cell : Cell} {now reader : Nat} {reading : Reading Key}
    {place : Key × Nat} (way : reading.underWay = some place)
    (unlocked : ∀ key slot, reading ≠ .handed key slot)
    (stands : Stands cell.line reader reading) :
    cell.keeps now = true := by
  obtain ⟨line, entry⟩ := cell
  cases line with
  | cons head rest => rfl
  | nil =>
      cases reading with
      | handed key slot => exact absurd rfl (unlocked key slot)
      | queued key slot => cases stands
      | fetching key slot => cases stands
      | _ => cases way

theorem lookup_swept {cache : Solutions Key} {reader other : Nat} {key key' : Key}
    {slot : Nat} (lined : cache.Lined) (settled : cache.Settled)
    (spares : cache.SweepSpares (.read reader key'))
    (way : cache.underWay other = some (key, slot)) :
    cache.swept.lookup key = some slot := by
  have bound := settled other key slot way
  unfold swept
  split
  · next full =>
      rw [AList.lookup_retain, bound, Option.filter_eq_some_iff]
      refine ⟨rfl, ?_⟩
      by_cases handed : ∃ key slot, cache.readers other = .handed key slot
      · obtain ⟨key'', slot', phase⟩ := handed
        have kept := spares full other key'' slot' phase
        rw [underWay, phase, Reading.underWay] at way
        cases way
        exact kept
      · apply keeps_of_stands way _ (lined other key slot way)
        intro key'' slot' phase
        exact handed ⟨key'', slot', phase⟩
  · exact bound

theorem settled_step {cache next : Solutions Key} {event : Event Key}
    (lined : cache.Lined) (settled : cache.Settled) (spares : cache.SweepSpares event)
    (moved : step cache event = some next) :
    next.Settled := by
  cases reads : event.reads with
  | true =>
      cases event with
      | read reader key =>
          obtain ⟨-, rfl⟩ := step_read moved
          intro other key' slot way
          rw [slots_put, lookup_slot]
          by_cases same : other = reader
          · subst same
            rw [underWay_put_self] at way
            cases way
            exact if_pos rfl
          · rw [underWay_put_of_ne same, underWay_slot] at way
            have kept := lookup_swept lined settled spares way
            split
            · next here =>
                subst here
                unfold Solutions.slot
                rw [kept]
            · exact kept
      | _ => cases reads
  | false =>
      obtain ⟨slots, onward⟩ := step_onward reads moved
      intro reader key slot way
      rw [slots]
      exact settled reader key slot (onward reader _ way)

/-- Where no sweep takes a slot that a reader is about to lock, every read finds
the slot of a key that is being read. -/
theorem slotKept_of_sweepSpares {events : List (Event Key)}
    (spares : Guarded step SweepSpares start events) :
    Guarded step SlotKept start events := by
  apply Guarded.weaken (fun cache => cache.Lined ∧ cache.Settled) _ _ _ spares
  · intro cache event next holds spares moved
    exact ⟨lined_step holds.1 moved, settled_step holds.1 holds.2 spares moved⟩
  · intro cache event holds spares
    cases event with
    | read reader key =>
        intro missing other slot way
        rw [lookup_swept holds.1 holds.2 spares way] at missing
        cases missing
    | _ => trivial
  · refine ⟨lined_start, ?_⟩
    intro reader key slot way
    cases way


/-! ### A sweep in between -/

/-- A reader reads its own file. -/
def round (number : Nat) : List (Event SolutionKey) :=
  [.read number (numbered number), .lock number, .look number,
    .fetched number (.ok (some ['x']))]

/-- Readers read so many files one after the other. -/
def rounds (count : Nat) : List (Event SolutionKey) :=
  (List.range count).flatMap round

/-- So many files were read, and nobody else did anything. -/
structure Filled (count : Nat) (cache : Solutions SolutionKey) : Prop where
  size : cache.slots.size = count
  free : ∀ number, count ≤ number → number < 512 →
    cache.slots.lookup (numbered number) = none
  made : cache.made = count
  unread : ∀ slot, count ≤ slot → cache.cells slot = .unread
  idle : ∀ reader, count ≤ reader → cache.readers reader = .idle

theorem numbered_inj {first second : Nat} (low : first < 512) (low' : second < 512)
    (same : numbered first = numbered second) : first = second := by
  have path : (Char.ofNat (0x4E00 + first)).toNat = (Char.ofNat (0x4E00 + second)).toNat := by
    have path := congrArg SolutionKey.path same
    simp only [numbered, List.cons.injEq, and_true] at path
    rw [path]
  rw [Utf16.toNat_ofNat (.inl (by omega)), Utf16.toNat_ofNat (.inl (by omega))] at path
  omega

theorem size_insert {slots : AList fun _ : SolutionKey => Nat} {key : SolutionKey} {slot : Nat}
    (missing : slots.lookup key = none) :
    (slots.insert key slot).size = slots.size + 1 := by
  rw [AList.insert_of_notMem (AList.lookup_eq_none.mp missing)]
  rfl

theorem filled_round {count : Nat} {cache : Solutions SolutionKey} (below : count < 511)
    (filled : Filled count cache) :
    ∃ next, run step cache (round count) = some next ∧ Filled (count + 1) next := by
  have missing : cache.slots.lookup (numbered count) = none :=
    filled.free count le_rfl (by omega)
  have unfull : ¬ sweepAt ≤ cache.slots.size := by
    rw [filled.size, sweepAt]
    omega
  have handing : cache.slot (numbered count) =
      ({ cache with
          slots := cache.slots.insert (numbered count) cache.made
          made := cache.made + 1 }, cache.made) := by
    unfold Solutions.slot swept
    rw [if_neg unfull, missing]
  have fetched : ∃ next, run step cache (round count) = some next ∧
      next.slots = cache.slots.insert (numbered count) cache.made ∧
      next.made = cache.made + 1 ∧
      (∀ slot, slot ≠ cache.made → next.cells slot = cache.cells slot) ∧
      ∀ reader, reader ≠ count → next.readers reader = cache.readers reader := by
    have unread := filled.unread cache.made (by rw [filled.made])
    have idle := filled.idle count le_rfl
    apply Exists.intro
    constructor
    · simp [round, step, handing, idle, unread, put, write, Cell.unread, Cell.leave]
      rfl
    · simp +contextual
  obtain ⟨next, ran, slots, made, cells, readers⟩ := fetched
  refine ⟨next, ran, ?_, ?_, ?_, ?_, ?_⟩
  · rw [slots, size_insert missing, filled.size]
  · intro number beyond low
    rw [slots, AList.lookup_insert_ne]
    · exact filled.free number (by omega) low
    · intro same
      have := numbered_inj low (by omega) same
      omega
  · rw [made, filled.made]
  · intro slot beyond
    rw [cells slot (by rw [filled.made]; omega)]
    exact filled.unread slot (by omega)
  · intro reader beyond
    rw [readers reader (by omega)]
    exact filled.idle reader (by omega)

theorem filled_rounds {count : Nat} (below : count ≤ 511) :
    ∃ cache, run step start (rounds count) = some cache ∧ Filled count cache := by
  induction count with
  | zero =>
      refine ⟨start, rfl, rfl, fun _ _ _ => rfl, rfl, fun _ _ => rfl, fun _ _ => rfl⟩
  | succ count ih =>
      obtain ⟨cache, ran, filled⟩ := ih (by omega)
      obtain ⟨next, moved, filled'⟩ := filled_round (by omega) filled
      refine ⟨next, ?_, filled'⟩
      rw [rounds, List.range_succ, List.flatMap_append, run_append_eq_some_iff]
      refine ⟨cache, ran, ?_⟩
      rw [List.flatMap_singleton]
      exact moved

/-- The last slot that fits is handed out, and swept when the next reader of the
same file comes before it is locked. -/
theorem not_single_flight_swept :
    ∃ (events : List (Event SolutionKey)) (cache : Solutions SolutionKey),
      run step start events = some cache ∧ ¬ cache.SingleFlight := by
  obtain ⟨cache, ran, filled⟩ := filled_rounds le_rfl
  have missing := filled.free 511 le_rfl (by omega)
  have unread := filled.unread 511 le_rfl
  have unread' := filled.unread 512 (by omega)
  have idle := filled.idle 511 le_rfl
  have idle' := filled.idle 512 (by omega)
  have made := filled.made
  have first : cache.slot (numbered 511) =
      ({ cache with slots := cache.slots.insert (numbered 511) 511, made := 512 }, 511) := by
    unfold Solutions.slot swept
    rw [if_neg (by rw [filled.size]; decide), missing, made]
  have idle_slot : (some 511).filter (fun slot => (cache.cells slot).keeps cache.now) = none := by
    simp [Option.filter, unread, Cell.unread, Cell.keeps]
  have second : ({ cache with
        slots := cache.slots.insert (numbered 511) 511
        made := 512
        readers := Function.update cache.readers 511 (.handed (numbered 511) 511) } :
        Solutions SolutionKey).slot (numbered 511) =
      ({ cache with
        slots := ((cache.slots.insert (numbered 511) 511).retain fun _ slot =>
          (cache.cells slot).keeps cache.now).insert (numbered 511) 512
        made := 513
        readers := Function.update cache.readers 511 (.handed (numbered 511) 511) }, 512) := by
    unfold Solutions.slot swept
    rw [if_pos (by rw [size_insert missing, filled.size]; decide), AList.lookup_retain,
      AList.lookup_insert, idle_slot]
  refine ⟨rounds 511 ++ [.read 511 (numbered 511), .read 512 (numbered 511), .lock 511,
    .lock 512, .look 511, .look 512], ?_⟩
  apply Exists.intro
  constructor
  · rw [run_append_eq_some_iff]
    refine ⟨cache, ran, ?_⟩
    simp [step, first, second, idle, idle', unread, unread', put, write, Cell.unread]
    rfl
  · intro single
    have same := single (numbered 511) 511 512 ⟨511, by simp⟩ ⟨512, by simp⟩
    cases same

end Solutions

end Hermione
