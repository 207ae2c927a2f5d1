import Hermione.Exercises

/-!
# Replacing a course's exercises

A replacement saves what is listed in one statement and deletes the rest in another.
Between the two it can fail, and another replacement can do its own.
-/

namespace Hermione

namespace Exercises

open EventRuns

/-! ### One call that fails -/

/-- If the call answers with an error, the rows are as before. -/
def ErrorsLeaveRows (resolved : Except ApiError Uuid) (body : DefineRequest) (now : Int)
    (newId : Item → Uuid) (rows : List ExerciseRow) (saving deleting : Reply) : Prop :=
  ∀ later error, define resolved body now newId rows saving deleting = (later, .error error) →
    later = rows

/-- Where the call is told of an error after a statement was carried out, that one had
nothing to change: what is listed was saved already, and nothing else was. -/
structure NothingToChange (course : Uuid) (items : List Item) (rows : List ExerciseRow)
    (saving deleting : Reply) : Prop where
  saved : lastEntries items = [] ∨ saving ≠ .failed → saving = .lost ∨ deleting ≠ .done →
    ∀ item ∈ lastEntries items, Stored rows course item
  alone : lastEntries items = [] ∨ saving = .done → deleting = .lost →
    ∀ slug, HasSlug rows course slug → ∃ item ∈ items, item.slug = slug

section Failing

variable {course : Uuid} {items : List Item} {now : Int} {newId : Item → Uuid}
  {rows : List ExerciseRow}

/-- Both statements together change nothing only if neither has anything to do. -/
theorem replaced_eq_iff (keyed : Keyed rows) :
    missingDeleted course (upsertRows course now newId rows items) (items.map Item.slug) = rows ↔
      (∀ item ∈ lastEntries items, Stored rows course item) ∧
        ∀ slug, HasSlug rows course slug → ∃ item ∈ items, item.slug = slug := by
  constructor
  · intro same
    constructor
    · intro item member
      obtain ⟨listed, there, slug⟩ := mem_slugs_lastEntries.mp ⟨item, member, rfl⟩
      have wanted : item.slug ∈ items.map Item.slug := slug ▸ List.mem_map_of_mem there
      rw [← same]
      exact (stored_upsertRows item member).missingDeleted wanted
    · intro slug has
      rw [← same, hasSlug_missingDeleted] at has
      exact List.mem_map.mp has.2
  · rintro ⟨stored, alone⟩
    rw [(upsertRows_eq_iff keyed).mpr stored, missingDeleted_eq_iff]
    intro slug has
    obtain ⟨item, member, rfl⟩ := alone slug has
    exact List.mem_map_of_mem member

theorem errorsLeaveRows_ok_iff {exercises : List ExerciseIn} {slug : Option Str}
    {saving deleting : Reply} (keyed : Keyed rows) :
    ErrorsLeaveRows (.ok course) { course := slug, exercises, replace := true } now newId rows
        saving deleting ↔
      NothingToChange course (itemsOf exercises) rows saving deleting := by
  have both : NothingToChange course (itemsOf exercises) rows saving deleting ↔ _ ∧ _ :=
    ⟨fun idle => ⟨idle.saved, idle.alone⟩, fun idle => ⟨idle.1, idle.2⟩⟩
  rw [both]
  unfold ErrorsLeaveRows define
  generalize itemsOf exercises = items
  by_cases none : lastEntries items = []
  · cases deleting with
    | done | failed => simp [upsert, none, deleteMissing, Reply.carry]
    | lost =>
        simp [upsert, none, deleteMissing, Reply.carry]
        rw [missingDeleted_eq_iff]
        simp only [List.mem_map]
  · cases saving with
    | done =>
        cases deleting with
        | done => simp [upsert, none, deleteMissing, Reply.carry]
        | failed =>
            simp [upsert, none, deleteMissing, Reply.carry]
            exact upsertRows_eq_iff keyed
        | lost =>
            simp [upsert, none, deleteMissing, Reply.carry]
            exact replaced_eq_iff keyed
    | failed => simp [upsert, none, Reply.carry]
    | lost =>
        simp [upsert, none, Reply.carry]
        exact upsertRows_eq_iff keyed

/-- A failed replacement leaves the rows exactly where it had nothing to change. -/
theorem errorsLeaveRows_iff {resolved : Except ApiError Uuid} {exercises : List ExerciseIn}
    {slug : Option Str} {saving deleting : Reply} (keyed : Keyed rows) :
    ErrorsLeaveRows resolved { course := slug, exercises, replace := true } now newId rows
        saving deleting ↔
      ∀ course, resolved = .ok course →
        NothingToChange course (itemsOf exercises) rows saving deleting := by
  cases resolved with
  | error e =>
      apply iff_of_true
      · rintro later error same
        cases same
        rfl
      · intro course same
        cases same
  | ok course => simp [errorsLeaveRows_ok_iff keyed]

end Failing

/-! ### Two calls at once -/

/-- How far a replacement is. -/
inductive ReplacePhase where
  | waiting
  | saved
  | done
  deriving DecidableEq

/-- The rows, and two replacements of one course. -/
structure Replacing where
  rows : List ExerciseRow
  phase : Bool → ReplacePhase

/-- The next statement of one of them. -/
inductive ReplaceEvent where
  | save (who : Bool) (now : Int) (newId : Item → Uuid)
  | delete (who : Bool)

namespace Replacing

def start (rows : List ExerciseRow) : Replacing :=
  { rows, phase := fun _ => .waiting }

section Steps

variable (course : Uuid) (items : Bool → List Item)

def step (state : Replacing) : ReplaceEvent → Option Replacing
  | .save who now newId =>
      if state.phase who = .waiting then
        some
          { rows := (upsert course now newId state.rows (items who) .done).1
            phase := Function.update state.phase who .saved }
      else none
  | .delete who =>
      if state.phase who = .saved then
        some
          { rows := (deleteMissing course state.rows ((items who).map Item.slug) .done).1
            phase := Function.update state.phase who .done }
      else none

/-- The course's slugs are exactly those listed. -/
def Exactly (state : Replacing) (who : Bool) : Prop :=
  ∀ slug, HasSlug state.rows course slug ↔ ∃ item ∈ items who, item.slug = slug

/-- All that are listed are there. -/
def Covers (state : Replacing) (who : Bool) : Prop :=
  ∀ item ∈ items who, HasSlug state.rows course item.slug

/-- What one lists the other lists too. -/
def Within (who : Bool) : Prop :=
  ∀ item ∈ items who, ∃ other ∈ items (!who), other.slug = item.slug

end Steps

/-- A replacement begins while the other is not between its statements. -/
def Apart (state : Replacing) : ReplaceEvent → Prop
  | .save who _ _ => state.phase (!who) ≠ .saved
  | .delete _ => True

variable {course : Uuid} {items : Bool → List Item} {state next : Replacing}

/-- What the phases say of the rows, and of whether the two have been apart so far. -/
structure Tells (course : Uuid) (items : Bool → List Item) (state : Replacing) (apart : Prop) :
    Prop where
  waiting : ∀ who, state.phase who = .waiting → apart
  saved : ∀ who, state.phase who = .saved →
    (state.phase (!who) = .done ∧ ¬ apart) ∨ state.Covers course items who
  overlapping : ∀ who, state.phase who = .saved → state.phase (!who) = .saved → ¬ apart
  first : ∀ who, state.phase who = .done → state.phase (!who) = .waiting →
    state.Exactly course items who
  between : ∀ who, state.phase who = .done → state.phase (!who) = .saved → ¬ apart →
    state.Exactly course items who
  both : ∀ who, state.phase who = .done → state.phase (!who) = .done →
    (apart ∧ ∃ last, state.Exactly course items last) ∨
      (¬ apart ∧ ∀ slug, HasSlug state.rows course slug ↔
        ∀ last, ∃ item ∈ items last, item.slug = slug)

theorem hasSlug_upsert {now : Int} {newId : Item → Uuid} {rows : List ExerciseRow}
    {listed : List Item} {slug : Str} :
    HasSlug (upsert course now newId rows listed .done).1 course slug ↔
      HasSlug rows course slug ∨ ∃ item ∈ listed, item.slug = slug := by
  unfold upsert
  split
  · next none =>
      rw [← mem_slugs_lastEntries, List.isEmpty_iff.mp none]
      simp
  · exact hasSlug_upsertRows

theorem eq_or_eq_not (who other : Bool) : other = who ∨ other = !who := by
  cases who <;> cases other <;> simp

/-- Saving adds what is listed. -/
theorem Tells.save {apart : Prop} (tells : Tells course items state apart) {who : Bool}
    {now : Int} {newId : Item → Uuid} (before : state.phase who = .waiting) :
    Tells course items
      { rows := (upsert course now newId state.rows (items who) .done).1
        phase := Function.update state.phase who .saved }
      (apart ∧ state.phase (!who) ≠ .saved) := by
  have held := tells.waiting who before
  have other : ∀ phase : ReplacePhase, Function.update state.phase who phase (!who) =
      state.phase (!who) := fun _ => Function.update_of_ne (by simp) _ _
  have own : ∀ phase : ReplacePhase, Function.update state.phase who phase who = phase :=
    fun _ => Function.update_self _ _ _
  constructor
  · intro which waiting
    obtain rfl | rfl := eq_or_eq_not who which
    · cases (own _).symm.trans waiting
    · refine ⟨held, fun saved => ?_⟩
      cases waiting.symm.trans ((other _).trans saved)
  · intro which saved
    right
    obtain rfl | rfl := eq_or_eq_not who which
    · exact fun item member => hasSlug_upsert.mpr (.inr ⟨item, member, rfl⟩)
    · rcases tells.saved (!who) ((other _).symm.trans saved) with ⟨done, _⟩ | covers
      · rw [Bool.not_not, before] at done
        cases done
      · exact fun item member => hasSlug_upsert.mpr (.inl (covers item member))
  · intro which saved also
    obtain rfl | rfl := eq_or_eq_not who which
    · exact fun apart => apart.2 ((other _).symm.trans also)
    · exact fun apart => apart.2 ((other _).symm.trans saved)
  · intro which done waiting
    obtain rfl | rfl := eq_or_eq_not who which
    · cases (own _).symm.trans done
    · rw [Bool.not_not] at waiting
      cases (own _).symm.trans waiting
  · intro which done saved overlap
    obtain rfl | rfl := eq_or_eq_not who which
    · cases (own _).symm.trans done
    · refine absurd ⟨held, fun saved => ?_⟩ overlap
      cases done.symm.trans ((other _).trans saved)
  · intro which done also
    obtain rfl | rfl := eq_or_eq_not who which
    · cases (own _).symm.trans done
    · rw [Bool.not_not] at also
      cases (own _).symm.trans also

theorem exactly_of_covers {rows : List ExerciseRow} {who : Bool}
    (covers : ∀ item ∈ items who, HasSlug rows course item.slug) (slug : Str) :
    HasSlug (deleteMissing course rows ((items who).map Item.slug) .done).1 course slug ↔
      ∃ item ∈ items who, item.slug = slug := by
  change HasSlug (missingDeleted course rows _) course slug ↔ _
  rw [hasSlug_missingDeleted, List.mem_map]
  constructor
  · exact And.right
  · rintro ⟨item, member, rfl⟩
    exact ⟨covers item member, item, member, rfl⟩

/-- Deleting leaves what is listed. -/
theorem Tells.delete {apart : Prop} (tells : Tells course items state apart) {who : Bool}
    (before : state.phase who = .saved) :
    Tells course items
      { rows := (deleteMissing course state.rows ((items who).map Item.slug) .done).1
        phase := Function.update state.phase who .done }
      (apart ∧ True) := by
  rw [and_true]
  have other : ∀ phase : ReplacePhase, Function.update state.phase who phase (!who) =
      state.phase (!who) := fun _ => Function.update_of_ne (by simp) _ _
  have own : ∀ phase : ReplacePhase, Function.update state.phase who phase who = phase :=
    fun _ => Function.update_self _ _ _
  have done_or := tells.saved who before
  constructor
  · intro which waiting
    obtain rfl | rfl := eq_or_eq_not who which
    · cases (own _).symm.trans waiting
    · exact tells.waiting (!who) ((other _).symm.trans waiting)
  · intro which saved
    left
    obtain rfl | rfl := eq_or_eq_not who which
    · cases (own _).symm.trans saved
    · rw [Bool.not_not]
      exact ⟨own _, tells.overlapping who before ((other _).symm.trans saved)⟩
  · intro which saved also
    obtain rfl | rfl := eq_or_eq_not who which
    · cases (own _).symm.trans saved
    · rw [Bool.not_not] at also
      cases (own _).symm.trans also
  · intro which done waiting
    obtain rfl | rfl := eq_or_eq_not who which
    · rcases done_or with ⟨ended, _⟩ | covers
      · cases ended.symm.trans ((other _).symm.trans waiting)
      · exact exactly_of_covers covers
    · rw [Bool.not_not] at waiting
      cases (own _).symm.trans waiting
  · intro which done saved overlap
    obtain rfl | rfl := eq_or_eq_not who which
    · rcases done_or with ⟨ended, _⟩ | covers
      · cases ended.symm.trans ((other _).symm.trans saved)
      · exact exactly_of_covers covers
    · rw [Bool.not_not] at saved
      cases (own _).symm.trans saved
  · intro which done also
    have ended : state.phase (!who) = .done := by
      obtain rfl | rfl := eq_or_eq_not who which
      · exact (other _).symm.trans also
      · exact (other _).symm.trans done
    by_cases held : apart
    · left
      rcases done_or with ⟨_, overlap⟩ | covers
      · exact absurd held overlap
      · exact ⟨held, who, exactly_of_covers covers⟩
    · right
      have others := tells.between (!who) ended (by rwa [Bool.not_not]) held
      refine ⟨held, fun slug => ?_⟩
      change HasSlug (missingDeleted course state.rows _) course slug ↔ _
      rw [hasSlug_missingDeleted, others, List.mem_map, and_comm, Bool.forall_bool]
      cases who
      · rfl
      · exact and_comm

theorem Tells.step {apart : Prop} (tells : Tells course items state apart)
    {event : ReplaceEvent} (stepped : step course items state event = some next) :
    Tells course items next (apart ∧ Apart state event) := by
  cases event with
  | save who now newId =>
      unfold Replacing.step at stepped
      dsimp only at stepped
      split at stepped
      · next before =>
          cases stepped
          exact tells.save before
      · cases stepped
  | delete who =>
      unfold Replacing.step at stepped
      dsimp only at stepped
      split at stepped
      · next before =>
          cases stepped
          exact tells.delete before
      · cases stepped

theorem tells_start {rows : List ExerciseRow} : Tells course items (start rows) True where
  waiting _ _ := trivial
  saved _ saved := by cases saved
  overlapping _ saved := by cases saved
  first _ done := by cases done
  between _ done := by cases done
  both _ done := by cases done

/-- Two replacements leave what one of them lists exactly if they were apart, or one
lists all that the other does. -/
theorem exactly_iff {rows : List ExerciseRow} {events : List ReplaceEvent}
    (ran : run (step course items) (start rows) events = some state)
    (done : ∀ who, state.phase who = .done) :
    (∃ who, state.Exactly course items who) ↔
      Guarded (step course items) Apart (start rows) events ∨ ∃ who, Within items who := by
  have tells : Tells course items state
      (True ∧ Guarded (step course items) Apart (start rows) events) := by
    apply tracked_of_run _ tells_start ran
    intro state held event next tells stepped
    exact tells.step stepped
  rw [true_and] at tells
  rcases tells.both false (done _) (done _) with ⟨held, exactly⟩ | ⟨overlap, common⟩
  · exact iff_of_true exactly (.inl held)
  · constructor
    · rintro ⟨who, exactly⟩
      right
      refine ⟨who, fun item member => ?_⟩
      have there := (exactly item.slug).mpr ⟨item, member, rfl⟩
      exact (common item.slug).mp there (!who)
    · rintro (held | ⟨who, within⟩)
      · exact absurd held overlap
      · refine ⟨who, fun slug => ?_⟩
        rw [common]
        constructor
        · exact fun all => all who
        · rintro ⟨item, member, rfl⟩ which
          obtain rfl | rfl := eq_or_eq_not who which
          · exact ⟨item, member, rfl⟩
          · exact within item member

/-- A call of `define` on its own is its two statements one after the other. -/
theorem define_eq_steps {rows : List ExerciseRow} {slug : Option Str}
    {exercises : Bool → List ExerciseIn} {who : Bool} {now : Int} {newId : Item → Uuid} :
    (run (step course fun who => itemsOf (exercises who)) (start rows)
        [.save who now newId, .delete who]).map Replacing.rows =
      some (define (.ok course) { course := slug, exercises := exercises who, replace := true } now
        newId rows .done .done).1 := by
  have saved : upsert course now newId rows (itemsOf (exercises who)) .done =
      ((upsert course now newId rows (itemsOf (exercises who)) .done).1, .ok ()) := by
    unfold upsert
    split <;> rfl
  rw [define, saved]
  simp [step, start]

end Replacing

/-- Failed replacements leave the rows where they had nothing to change, and of two at
once one's list is left where they were apart or one lists all that the other does. -/
theorem replacements_sound_iff (rows : List ExerciseRow) (keyed : Keyed rows) :
    (∀ (resolved : Except ApiError Uuid) (slug : Option Str) (exercises : List ExerciseIn)
        (now : Int) (newId : Item → Uuid) (saving deleting : Reply),
      ErrorsLeaveRows resolved { course := slug, exercises, replace := true } now newId rows
          saving deleting ↔
        ∀ course, resolved = .ok course →
          NothingToChange course (itemsOf exercises) rows saving deleting) ∧
    ∀ (course : Uuid) (exercises : Bool → List ExerciseIn) (events : List ReplaceEvent)
      (final : Replacing),
      run (Replacing.step course fun who => itemsOf (exercises who)) (.start rows) events =
        some final →
      (∀ who, final.phase who = .done) →
      ((∃ who, final.Exactly course (fun who => itemsOf (exercises who)) who) ↔
        Guarded (Replacing.step course fun who => itemsOf (exercises who)) Replacing.Apart
            (.start rows) events ∨
          ∃ who, Replacing.Within (fun who => itemsOf (exercises who)) who) :=
  ⟨fun _ _ _ _ _ _ _ => errorsLeaveRows_iff keyed,
    fun _ _ _ _ ran done => Replacing.exactly_iff ran done⟩

/-- One exercise by its slug. -/
def listed (slug : String) : List ExerciseIn :=
  [{ slug := slug.toList, title := none, position := none }]

/-- Two replacements, each of which saves before either deletes. -/
def overlapping : List ReplaceEvent :=
  [.save true 0 fun _ => 1, .save false 0 fun _ => 2, .delete true, .delete false]

/-- One after the other, the second one's list is left. -/
theorem replacements_sound_iff_serial :
    ∃ final, run (Replacing.step 7 fun who => itemsOf (listed (if who then "ex1" else "ex2")))
        (.start [])
        [.save true 0 fun _ => 1, .delete true, .save false 0 fun _ => 2, .delete false] =
          some final ∧
      ∃ who, final.Exactly 7 (fun who => itemsOf (listed (if who then "ex1" else "ex2"))) who := by
  refine ⟨_, rfl, ?_⟩
  apply ((replacements_sound_iff [] (by simp [Keyed])).2 7
    (fun who => listed (if who then "ex1" else "ex2"))
    [.save true 0 fun _ => 1, .delete true, .save false 0 fun _ => 2, .delete false] _ rfl
    (by decide)).mpr
  left
  apply Guarded.cons (fun saved => by cases saved) rfl
  apply Guarded.cons trivial rfl
  apply Guarded.cons (fun saved => by cases saved) rfl
  exact Guarded.cons trivial rfl trivial

/-- A replacement whose deletion fails has changed the rows, and of two that overlap
nothing is left. -/
theorem not_replacements_sound_overlapping :
    ¬ ((∀ (rows : List ExerciseRow), Keyed rows → ∀ (exercises : List ExerciseIn)
          (now : Int) (newId : Item → Uuid) (saving deleting : Reply),
        ErrorsLeaveRows (.ok 7) { course := none, exercises, replace := true } now newId rows
          saving deleting) ∨
      ∀ (rows : List ExerciseRow), Keyed rows → ∀ (exercises : Bool → List ExerciseIn)
          (events : List ReplaceEvent) (final : Replacing),
        run (Replacing.step 7 fun who => itemsOf (exercises who)) (.start rows) events =
          some final →
        (∀ who, final.phase who = .done) →
        ∃ who, final.Exactly 7 (fun who => itemsOf (exercises who)) who) := by
  rintro (leaves | exactly)
  · have same := leaves [] (by simp [Keyed]) (listed "ex1") 0 (fun _ => 1) .done .failed _ .internal
      rfl
    cases same
  · obtain ⟨who, only⟩ := exactly [] (by simp [Keyed])
      (fun who => listed (if who then "ex1" else "ex2")) overlapping _ rfl (by decide)
    have gone : ¬ HasSlug [] 7 (if who then "ex1" else "ex2").toList := by
      rintro ⟨row, member, _⟩
      cases member
    apply gone
    apply (only _).mpr
    cases who
    · exact ⟨{ slug := "ex2".toList, title := "ex2".toList, position := 0 }, by decide, rfl⟩
    · exact ⟨{ slug := "ex1".toList, title := "ex1".toList, position := 0 }, by decide, rfl⟩

end Exercises

end Hermione
