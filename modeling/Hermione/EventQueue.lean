import Mathlib.Data.List.Nodup
import Mathlib.Data.List.Perm.Basic
import Hermione.EventRuns

/-!
# The editor's event queue

File events are collected in a queue, and a timer sends what has collected as
one batch.  A batch that fails is put back in front of the queue, which may have
grown meanwhile; more batches may be on their way than one.

An event is known by its number in the order of enqueueing.  What became of the
events that are no longer waiting is kept beside the queue.
-/

namespace Hermione

open EventRuns

/-- Events kept while the backend is unreachable; the oldest go first. -/
def maxQueuedEvents : Nat := 1000

/-- A batch the backend refused for what it is will never succeed. -/
def permanentRefusals : List Nat := [400, 403, 413]

/-- A call of `flush` that awaits its answer. -/
structure Flight where
  batch : List Nat
  /-- Its request was made: the credentials for it were had. -/
  sent : Bool
  deriving DecidableEq

structure EventQueue where
  queue : List Nat
  /-- Whether `flushTimer` is set. -/
  timer : Bool
  flushFailures : Nat
  flights : List Flight
  enqueued : Nat
  delivered : List Nat
  refused : List Nat
  dropped : List Nat

namespace EventQueue

def empty : EventQueue :=
  { queue := []
    timer := false
    flushFailures := 0
    flights := []
    enqueued := 0
    delivered := []
    refused := []
    dropped := [] }

def enqueue (state : EventQueue) : EventQueue :=
  { state with
    queue := state.queue ++ [state.enqueued]
    enqueued := state.enqueued + 1
    timer := true }

/-- The timer fires. -/
def flush (state : EventQueue) : EventQueue :=
  match state.queue with
  | [] => { state with timer := false }
  | _ :: _ =>
      { state with
        timer := false
        queue := []
        flights := state.flights ++ [{ batch := state.queue, sent := false }] }

/-- The timer is set again for what collected during the flight. -/
def rearm (state : EventQueue) : EventQueue :=
  match state.queue with
  | [] => state
  | _ :: _ => { state with timer := true }

/-- Events in excess of the limit. -/
def overflow (state : EventQueue) (batch : List Nat) : Nat :=
  (batch ++ state.queue).length - maxQueuedEvents

/-- Re-queue and retry. -/
def requeue (state : EventQueue) (batch : List Nat) : EventQueue :=
  let all := batch ++ state.queue
  { state with
    queue := all.drop (state.overflow batch)
    dropped := state.dropped ++ all.take (state.overflow batch)
    timer := true
    -- `??=`: a timer that is set already keeps its delay, and the failure is not counted.
    flushFailures := if state.timer then state.flushFailures else state.flushFailures + 1 }

def isOk (status : Nat) : Bool :=
  200 ≤ status && status < 300

/-- A batch was answered. -/
def answer (state : EventQueue) (batch : List Nat) (status : Nat) : EventQueue :=
  if isOk status then
    { state with delivered := state.delivered ++ batch, flushFailures := 0 }.rearm
  else if status ∈ permanentRefusals then
    { state with refused := state.refused ++ batch, flushFailures := 0 }.rearm
  else state.requeue batch

/-- A flight is over. -/
def land (state : EventQueue) (index : Nat) : EventQueue :=
  { state with flights := state.flights.eraseIdx index }

inductive Event where
  | enqueue
  | fire
  /-- A flight has its credentials and makes its request. -/
  | send (index : Nat)
  | answered (index : Nat) (status : Nat)
  /-- A request ends without an answer. -/
  | lost (index : Nat)

def step (state : EventQueue) : Event → Option EventQueue
  | .enqueue => some state.enqueue
  | .fire => if state.timer then some state.flush else none
  | .send index =>
      match state.flights[index]? with
      | some ⟨batch, false⟩ =>
          some { state with flights := state.flights.set index { batch, sent := true } }
      | _ => none
  | .answered index status =>
      match state.flights[index]? with
      | some ⟨batch, true⟩ => some ((state.land index).answer batch status)
      | _ => none
  | .lost index =>
      match state.flights[index]? with
      | some ⟨batch, true⟩ => some ((state.land index).requeue batch)
      | _ => none

/-! ### Order and accounts -/

def InOrder (state : EventQueue) : Prop :=
  state.queue.Pairwise (· < ·)

instance (state : EventQueue) : Decidable state.InOrder :=
  inferInstanceAs (Decidable (state.queue.Pairwise (· < ·)))

/-- Everything that became of events, place by place. -/
def places (state : EventQueue) : List Nat :=
  state.queue ++ (state.flights.map Flight.batch).flatten ++ state.delivered ++
    state.refused ++ state.dropped

/-- Every event enqueued so far stands in exactly one place, once. -/
def Accounted (state : EventQueue) : Prop :=
  state.places.Perm (List.range state.enqueued)

/-- What a step drops is older than what it leaves in the queue. -/
def DropsOldest (before after : EventQueue) : Prop :=
  ∀ dropped ∈ after.dropped, dropped ∉ before.dropped →
    ∀ kept ∈ after.queue, dropped < kept

/-- A step keeps the queue in order and every event in one place, and drops only
the oldest. -/
def KeepsOrder (state : EventQueue) (event : Event) : Prop :=
  ∀ next, step state event = some next →
    next.InOrder ∧ next.Accounted ∧ state.DropsOldest next

/-- A batch was enqueued before all of the queue that there may be room for. -/
def Precedes (state : EventQueue) (batch : List Nat) : Prop :=
  ∀ early ∈ batch, ∀ late ∈ state.queue.drop (state.queue.length - maxQueuedEvents),
    early < late

/-- A batch that is put back was enqueued before what waits. -/
def PutsBackOldest (state : EventQueue) : Event → Prop
  | .answered index status =>
      isOk status = false → status ∉ permanentRefusals →
        ∀ batch, state.flights[index]? = some ⟨batch, true⟩ → state.Precedes batch
  | .lost index =>
      ∀ batch, state.flights[index]? = some ⟨batch, true⟩ → state.Precedes batch
  | _ => True

/-! ### Cutting a list -/

/-- Where two ordered lists follow each other, what is kept of them is in order
and newer than what is cut off exactly if the first comes before what is kept of
the second. -/
theorem cut_inOrder_iff {front back : List Nat} (count : Nat)
    (frontOrder : front.Pairwise (· < ·)) (backOrder : back.Pairwise (· < ·)) :
    (((front ++ back).drop count).Pairwise (· < ·) ∧
        ∀ cut ∈ (front ++ back).take count, ∀ kept ∈ (front ++ back).drop count, cut < kept) ↔
      ∀ early ∈ front, ∀ late ∈ back.drop (count - front.length), early < late := by
  rw [List.drop_append, List.take_append]
  constructor
  · rintro ⟨order, older⟩ early member late later
    rw [← List.take_append_drop count front, List.mem_append] at member
    rcases member with cut | kept
    · exact older early (List.mem_append_left _ cut) late (List.mem_append_right _ later)
    · exact (List.pairwise_append.mp order).2.2 early kept late later
  · intro precedes
    constructor
    · rw [List.pairwise_append]
      refine ⟨frontOrder.sublist (List.drop_sublist ..),
        backOrder.sublist (List.drop_sublist ..), ?_⟩
      intro early kept late later
      exact precedes early (List.mem_of_mem_drop kept) late later
    · intro cut gone kept stays
      rw [List.mem_append] at gone stays
      have splitFront := frontOrder
      rw [← List.take_append_drop count front, List.pairwise_append] at splitFront
      have splitBack := backOrder
      rw [← List.take_append_drop (count - front.length) back, List.pairwise_append] at splitBack
      rcases gone with gone | gone
      · rcases stays with stays | stays
        · exact splitFront.2.2 cut gone kept stays
        · exact precedes cut (List.mem_of_mem_take gone) kept stays
      · rcases stays with stays | stays
        · -- Nothing of the first list is left once the second is cut.
          have room : count - front.length ≠ 0 := by
            intro zero
            rw [zero, List.take_zero] at gone
            cases gone
          rw [List.drop_eq_nil_of_le (by omega)] at stays
          cases stays
        · exact splitBack.2.2 cut gone kept stays

/-! ### The batches in flight -/

/-- The events in flight. -/
def aloft (state : EventQueue) : List Nat :=
  (state.flights.map Flight.batch).flatten

theorem aloft_land {state : EventQueue} {index : Nat} {flight : Flight}
    (found : state.flights[index]? = some flight) :
    state.aloft.Perm (flight.batch ++ (state.land index).aloft) := by
  obtain ⟨within, rfl⟩ := List.getElem?_eq_some_iff.mp found
  have drawn := List.getElem_cons_eraseIdx_perm within
  have flat := (drawn.symm.map Flight.batch).flatten
  rwa [List.map_cons, List.flatten_cons] at flat

theorem batches_set_sent {flights : List Flight} {index : Nat} {batch : List Nat}
    (found : flights[index]? = some ⟨batch, false⟩) :
    (flights.set index ⟨batch, true⟩).map Flight.batch = flights.map Flight.batch := by
  apply List.ext_getElem?
  intro other
  rw [List.map_set, List.getElem?_set, List.getElem?_map]
  split
  · next same =>
      subst same
      obtain ⟨within, -⟩ := List.getElem?_eq_some_iff.mp found
      rw [List.length_map, if_pos within, found]
      rfl
  · rfl

/-! ### Accounts -/

theorem count_places (state : EventQueue) (event : Nat) :
    state.places.count event =
      state.queue.count event + state.aloft.count event + state.delivered.count event +
        state.refused.count event + state.dropped.count event := by
  simp only [places, aloft, List.count_append]

theorem accounted_iff {state : EventQueue} :
    state.Accounted ↔ ∀ event,
      state.queue.count event + state.aloft.count event + state.delivered.count event +
        state.refused.count event + state.dropped.count event =
      (List.range state.enqueued).count event := by
  simp only [Accounted, List.perm_iff_count, count_places]

theorem accounted_empty : empty.Accounted :=
  .nil

theorem accounted_rearm {state : EventQueue} : state.rearm.Accounted ↔ state.Accounted := by
  unfold rearm
  split <;> rfl

theorem accounted_requeue {state : EventQueue} {batch : List Nat} :
    (state.requeue batch).Accounted ↔
      { state with queue := batch ++ state.queue }.Accounted := by
  have whole : ∀ event, ((batch ++ state.queue).drop (state.overflow batch)).count event +
      ((batch ++ state.queue).take (state.overflow batch)).count event =
        (batch ++ state.queue).count event := by
    intro event
    rw [Nat.add_comm, ← List.count_append, List.take_append_drop]
  simp only [accounted_iff, requeue, aloft, List.count_append] at whole ⊢
  apply forall_congr'
  intro event
  have := whole event
  omega

theorem accounted_answer {state : EventQueue} {batch : List Nat} {status : Nat} :
    (state.answer batch status).Accounted ↔
      { state with queue := batch ++ state.queue }.Accounted := by
  unfold answer
  split
  · rw [accounted_rearm]
    simp only [accounted_iff, aloft, List.count_append]
    apply forall_congr'
    intro event
    omega
  · split
    · rw [accounted_rearm]
      simp only [accounted_iff, aloft, List.count_append]
      apply forall_congr'
      intro event
      omega
    · exact accounted_requeue

/-- Taking a flight back leaves the accounts as they are. -/
theorem accounted_land {state : EventQueue} {index : Nat} {flight : Flight}
    (found : state.flights[index]? = some flight) (holds : state.Accounted) :
    { state.land index with queue := flight.batch ++ state.queue }.Accounted := by
  rw [accounted_iff] at holds ⊢
  intro event
  have drawn := (aloft_land found).count_eq event
  have before := holds event
  simp only [aloft, land, List.count_append] at drawn before ⊢
  omega

theorem accounted_step {state next : EventQueue} {event : Event} (holds : state.Accounted)
    (moved : step state event = some next) : next.Accounted := by
  cases event with
  | enqueue =>
      cases moved
      rw [accounted_iff] at holds ⊢
      intro event
      have before := holds event
      simp only [enqueue, aloft, List.count_append, List.range_succ] at before ⊢
      omega
  | fire =>
      simp only [step] at moved
      split at moved
      · cases moved
        unfold flush
        split
        · exact holds
        · rw [accounted_iff] at holds ⊢
          intro event
          have before := holds event
          simp [aloft] at before ⊢
          omega
      · cases moved
  | send index =>
      simp only [step] at moved
      split at moved
      · next batch found =>
          cases moved
          rw [accounted_iff] at holds ⊢
          simpa only [aloft, batches_set_sent found] using holds
      · cases moved
  | answered index status =>
      simp only [step] at moved
      split at moved
      · next batch found =>
          cases moved
          exact accounted_answer.mpr (accounted_land found holds)
      · cases moved
  | lost index =>
      simp only [step] at moved
      split at moved
      · next batch found =>
          rw [← Option.some.inj moved]
          exact accounted_requeue.mpr (accounted_land found holds)
      · cases moved
/-! ### Order -/

/-- The queue and every batch in flight are in order, and the accounts are kept. -/
structure Ordered (state : EventQueue) : Prop where
  queue : state.InOrder
  batches : ∀ flight ∈ state.flights, flight.batch.Pairwise (· < ·)
  accounted : state.Accounted

theorem ordered_empty : empty.Ordered :=
  { queue := .nil
    batches := by
      intro flight member
      cases member
    accounted := accounted_empty }

@[simp]
theorem queue_rearm (state : EventQueue) : state.rearm.queue = state.queue := by
  unfold rearm
  split <;> rfl

@[simp]
theorem flights_rearm (state : EventQueue) : state.rearm.flights = state.flights := by
  unfold rearm
  split <;> rfl

@[simp]
theorem dropped_rearm (state : EventQueue) : state.rearm.dropped = state.dropped := by
  unfold rearm
  split <;> rfl

@[simp]
theorem flights_requeue (state : EventQueue) (batch : List Nat) :
    (state.requeue batch).flights = state.flights := by
  simp only [requeue]

@[simp]
theorem queue_requeue (state : EventQueue) (batch : List Nat) :
    (state.requeue batch).queue = (batch ++ state.queue).drop (state.overflow batch) := by
  simp only [requeue]

@[simp]
theorem dropped_requeue (state : EventQueue) (batch : List Nat) :
    (state.requeue batch).dropped =
      state.dropped ++ (batch ++ state.queue).take (state.overflow batch) := by
  simp only [requeue]

@[simp]
theorem queue_land (state : EventQueue) (index : Nat) :
    (state.land index).queue = state.queue :=
  rfl

@[simp]
theorem dropped_land (state : EventQueue) (index : Nat) :
    (state.land index).dropped = state.dropped :=
  rfl

@[simp]
theorem flights_answer (state : EventQueue) (batch : List Nat) (status : Nat) :
    (state.answer batch status).flights = state.flights := by
  unfold answer
  split
  · exact flights_rearm _
  · split
    · exact flights_rearm _
    · exact flights_requeue _ _

theorem lt_of_queued {state : EventQueue} (accounted : state.Accounted) {event : Nat}
    (waits : event ∈ state.queue) : event < state.enqueued := by
  have placed : event ∈ state.places := by
    simp [places, waits]
  exact List.mem_range.mp (accounted.mem_iff.mp placed)

/-- What waits or flies was not dropped. -/
theorem not_dropped {state : EventQueue} (accounted : state.Accounted) {event : Nat}
    (alive : event ∈ state.queue ∨ event ∈ state.aloft) : event ∉ state.dropped := by
  intro gone
  have once : (List.range state.enqueued).count event ≤ 1 :=
    List.nodup_iff_count_le_one.mp (List.nodup_range) event
  have total := accounted_iff.mp accounted event
  have fallen := List.count_pos_iff.mpr gone
  rcases alive with waits | flies
  · have := List.count_pos_iff.mpr waits
    omega
  · have := List.count_pos_iff.mpr flies
    omega

theorem mem_aloft {state : EventQueue} {index event : Nat} {flight : Flight}
    (found : state.flights[index]? = some flight) (member : event ∈ flight.batch) :
    event ∈ state.aloft := by
  rw [(aloft_land found).mem_iff]
  exact List.mem_append_left _ member

/-- A batch that is put back keeps the order exactly if it precedes the queue. -/
theorem requeue_keeps_iff {state : EventQueue} {index : Nat} {flight : Flight}
    (ordered : state.Ordered) (found : state.flights[index]? = some flight) :
    ((state.land index).requeue flight.batch).InOrder ∧
        state.DropsOldest ((state.land index).requeue flight.batch) ↔
      state.Precedes flight.batch := by
  have batchOrder := ordered.batches flight (List.mem_of_getElem? found)
  have excess : (state.land index).overflow flight.batch - flight.batch.length =
      state.queue.length - maxQueuedEvents := by
    simp only [overflow, land, List.length_append]
    omega
  have cut := cut_inOrder_iff ((state.land index).overflow flight.batch) batchOrder ordered.queue
  rw [excess] at cut
  rw [Precedes, ← cut]
  simp only [InOrder, DropsOldest, queue_requeue, dropped_requeue, queue_land, dropped_land]
  apply and_congr_right
  intro _
  constructor
  · intro oldest gone taken kept stays
    apply oldest gone (List.mem_append_right _ taken) _ kept stays
    apply not_dropped ordered.accounted
    rcases List.mem_append.mp (List.mem_of_mem_take taken) with flies | waits
    · exact .inr (mem_aloft found flies)
    · exact .inl waits
  · intro oldest gone dropped new kept stays
    rcases List.mem_append.mp dropped with before | taken
    · exact absurd before new
    · exact oldest gone taken kept stays

theorem flights_step {state next : EventQueue} {event : Event}
    (moved : step state event = some next) {flight : Flight} (member : flight ∈ next.flights) :
    flight.batch = state.queue ∨ ∃ before ∈ state.flights, before.batch = flight.batch := by
  cases event with
  | enqueue =>
      cases moved
      exact .inr ⟨flight, member, rfl⟩
  | fire =>
      simp only [step] at moved
      split at moved
      · rw [← Option.some.inj moved, flush] at member
        split at member
        · exact .inr ⟨flight, member, rfl⟩
        · rcases List.mem_append.mp member with before | new
          · exact .inr ⟨flight, before, rfl⟩
          · rw [List.mem_singleton.mp new]
            exact .inl rfl
      · cases moved
  | send index =>
      simp only [step] at moved
      split at moved
      · next batch found =>
          rw [← Option.some.inj moved] at member
          rcases List.mem_or_eq_of_mem_set member with before | new
          · exact .inr ⟨flight, before, rfl⟩
          · rw [new]
            exact .inr ⟨_, List.mem_of_getElem? found, rfl⟩
      · cases moved
  | answered index status =>
      simp only [step] at moved
      split at moved
      · rw [← Option.some.inj moved, flights_answer] at member
        exact .inr ⟨flight, List.mem_of_mem_eraseIdx member, rfl⟩
      · cases moved
  | lost index =>
      simp only [step] at moved
      split at moved
      · rw [← Option.some.inj moved] at member
        exact .inr ⟨flight, List.mem_of_mem_eraseIdx member, rfl⟩
      · cases moved

theorem ordered_step {state next : EventQueue} {event : Event} (ordered : state.Ordered)
    (keeps : state.KeepsOrder event) (moved : step state event = some next) :
    next.Ordered := by
  obtain ⟨queue, accounted, -⟩ := keeps next moved
  refine ⟨queue, fun flight member => ?_, accounted⟩
  rcases flights_step moved member with new | ⟨before, flew, same⟩
  · rw [new]
    exact ordered.queue
  · rw [← same]
    exact ordered.batches before flew

/-- A step that drops nothing and leaves the queue in order. -/
theorem keepsOrder_of_quiet {state : EventQueue} {event : Event} (ordered : state.Ordered)
    (quiet : ∀ next, step state event = some next →
      next.InOrder ∧ next.dropped = state.dropped) :
    state.KeepsOrder event := by
  intro next moved
  obtain ⟨order, dropped⟩ := quiet next moved
  refine ⟨order, accounted_step ordered.accounted moved, ?_⟩
  intro gone fallen new
  rw [dropped] at fallen
  exact absurd fallen new

theorem keepsOrder_requeue_iff {state : EventQueue} {event : Event} {index : Nat}
    {flight : Flight} (ordered : state.Ordered)
    (found : state.flights[index]? = some flight)
    (moved : step state event = some ((state.land index).requeue flight.batch)) :
    state.KeepsOrder event ↔ state.Precedes flight.batch := by
  rw [← requeue_keeps_iff ordered found]
  constructor
  · intro keeps
    obtain ⟨order, -, oldest⟩ := keeps _ moved
    exact ⟨order, oldest⟩
  · rintro ⟨order, oldest⟩ next again
    rw [moved] at again
    rw [← Option.some.inj again]
    exact ⟨order, accounted_step ordered.accounted moved, oldest⟩

theorem keepsOrder_answered_iff {state : EventQueue} {index status : Nat}
    (ordered : state.Ordered) :
    state.KeepsOrder (.answered index status) ↔
      state.PutsBackOldest (.answered index status) := by
  by_cases found : ∃ batch, state.flights[index]? = some ⟨batch, true⟩
  · obtain ⟨batch, found⟩ := found
    have moved : step state (.answered index status) =
        some ((state.land index).answer batch status) := by
      simp only [step, found]
    by_cases transient : isOk status = false ∧ status ∉ permanentRefusals
    · have requeued : (state.land index).answer batch status =
          (state.land index).requeue batch := by
        simp [answer, transient]
      rw [requeued] at moved
      rw [keepsOrder_requeue_iff ordered found moved]
      simp [PutsBackOldest, found, transient]
    · apply iff_of_true
      · apply keepsOrder_of_quiet ordered
        intro next again
        rw [moved] at again
        rw [← Option.some.inj again, answer]
        split
        · exact ⟨by rw [InOrder, queue_rearm]; exact ordered.queue, dropped_rearm _⟩
        · split
          · exact ⟨by rw [InOrder, queue_rearm]; exact ordered.queue, dropped_rearm _⟩
          · next notOk notRefused =>
              exact absurd ⟨by simpa using notOk, notRefused⟩ transient
      · intro notOk notRefused
        exact absurd ⟨notOk, notRefused⟩ transient
  · apply iff_of_true
    · intro next moved
      simp only [step] at moved
      split at moved
      · next batch there => exact absurd ⟨batch, there⟩ found
      · cases moved
    · intro _ _ batch there
      exact absurd ⟨batch, there⟩ found

/-- In an orderly state a step keeps the order exactly if it puts back no batch
that an older event waits behind. -/
theorem keepsOrder_iff {state : EventQueue} {event : Event} (ordered : state.Ordered) :
    state.KeepsOrder event ↔ state.PutsBackOldest event := by
  cases event with
  | enqueue =>
      refine iff_of_true (keepsOrder_of_quiet ordered ?_) trivial
      intro next moved
      rw [← Option.some.inj moved]
      refine ⟨List.pairwise_append.mpr ⟨ordered.queue, List.pairwise_singleton _ _, ?_⟩, rfl⟩
      intro early waits late new
      rw [List.mem_singleton.mp new]
      exact lt_of_queued ordered.accounted waits
  | fire =>
      refine iff_of_true (keepsOrder_of_quiet ordered ?_) trivial
      intro next moved
      simp only [step] at moved
      split at moved
      · rw [← Option.some.inj moved, flush]
        split
        · exact ⟨ordered.queue, rfl⟩
        · exact ⟨.nil, rfl⟩
      · cases moved
  | send index =>
      refine iff_of_true (keepsOrder_of_quiet ordered ?_) trivial
      intro next moved
      simp only [step] at moved
      split at moved
      · rw [← Option.some.inj moved]
        exact ⟨ordered.queue, rfl⟩
      · cases moved
  | answered index status => exact keepsOrder_answered_iff ordered
  | lost index =>
      by_cases found : ∃ batch, state.flights[index]? = some ⟨batch, true⟩
      · obtain ⟨batch, found⟩ := found
        rw [keepsOrder_requeue_iff ordered found (by simp only [step, found])]
        simp [PutsBackOldest, found]
      · apply iff_of_true
        · intro next moved
          simp only [step] at moved
          split at moved
          · next batch there => exact absurd ⟨batch, there⟩ found
          · cases moved
        · intro batch there
          exact absurd ⟨batch, there⟩ found

/-- In every run the queue is always in order, every event in one place, and
only the oldest are dropped, exactly if every batch that is put back was enqueued
before what waits. -/
theorem keepsOrder_iff_putsBackOldest (events : List Event) :
    Guarded step KeepsOrder empty events ↔ Guarded step PutsBackOldest empty events := by
  constructor
  · intro keeps
    apply Guarded.weaken Ordered _ _ ordered_empty keeps
    · intro state event next ordered
      exact ordered_step ordered
    · intro state event ordered
      exact (keepsOrder_iff ordered).mp
  · intro oldest
    apply Guarded.weaken Ordered _ _ ordered_empty oldest
    · intro state event next ordered met
      exact ordered_step ordered ((keepsOrder_iff ordered).mpr met)
    · intro state event ordered
      exact (keepsOrder_iff ordered).mpr

/-- Two flights overlap, and the older one fails first. -/
theorem not_inOrder_overlapping :
    ∃ state, run step empty [.enqueue, .fire, .send 0, .enqueue, .fire, .send 1, .lost 0,
        .lost 0] = some state ∧
      ¬ state.InOrder := by
  refine ⟨_, rfl, ?_⟩
  decide

end EventQueue

end Hermione
