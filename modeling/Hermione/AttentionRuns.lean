import Hermione.Attention

/-!
# Attention over whole histories

An update asks of every student only the entry from before.  Its rank is the worst one
of the run of updates in which the student was flagged, whatever was marked in between,
so one look at it tells whether things are worse than ever in that run.
-/

namespace Hermione

namespace Attention

variable {Time : Type*}

/-! ### One update, by student -/

/-- The entry of a student after an update that finds this level. -/
def attended (entries : Entries Time) (now : Time) (s : Student) : Option (Entry Time) :=
  if rankOf s.struggle = 0 then none
  else some ((flaggedBefore entries s).getD ⟨some (rankOf s.struggle), some now, none, none⟩)

/-- Whether an update announces a student. -/
def escalates (entries : Entries Time) (s : Student) : Bool :=
  rankOf s.struggle = 2 && (flaggedBefore entries s).isNone

theorem updateStudent_entries (entries : Entries Time) (now : Time) (result : Update Time)
    (s : Student) : (updateStudent entries now result s).entries =
      if rankOf s.struggle = 0 then result.entries
      else Function.update result.entries s.student (attended entries now s) := by
  unfold updateStudent attended
  split
  · rfl
  · cases flaggedBefore entries s <;> rfl

theorem updateStudent_escalated (entries : Entries Time) (now : Time) (result : Update Time)
    (s : Student) : (updateStudent entries now result s).escalated =
      result.escalated ++ if escalates entries s then [s.student] else [] := by
  unfold updateStudent escalates
  split
  · next unflagged => simp [unflagged]
  · cases flaggedBefore entries s with
    | some before => simp
    | none =>
        by_cases worst : rankOf s.struggle = 2
        · simp [worst]
        · simp [worst]

theorem levelIn_cons (s : Student) (students : List Student) (name : JsString) :
    levelIn (s :: students) name = if s.student = name then s.struggle
      else levelIn students name := by
  unfold levelIn
  rw [List.find?_cons]
  by_cases same : s.student = name
  · simp [same]
  · simp [same]

theorem levelIn_of_not_mem {students : List Student} {name : JsString}
    (absent : name ∉ students.map Student.student) : levelIn students name = .ok := by
  induction students with
  | nil => rfl
  | cons s students ih =>
      rw [List.map_cons, List.mem_cons, not_or] at absent
      rw [levelIn_cons, if_neg (Ne.symm absent.1), ih absent.2]

theorem levelIn_of_mem {students : List Student} (once : (students.map Student.student).Nodup)
    {s : Student} (member : s ∈ students) : levelIn students s.student = s.struggle := by
  induction students with
  | nil => cases member
  | cons first students ih =>
      obtain ⟨alone, once⟩ := List.nodup_cons.mp once
      rw [levelIn_cons]
      rcases List.mem_cons.mp member with rfl | later
      · rw [if_pos rfl]
      · have other : first.student ≠ s.student := by
          intro same
          apply alone
          rw [same]
          exact List.mem_map_of_mem later
        rw [if_neg other, ih once later]

/-- A student who is flagged is listed. -/
theorem exists_of_levelIn {students : List Student} {name : JsString}
    (flagged : rankOf (levelIn students name) ≠ 0) :
    ∃ s ∈ students, s.student = name ∧ s.struggle = levelIn students name := by
  induction students with
  | nil => exact absurd rfl flagged
  | cons s students ih =>
      rw [levelIn_cons] at flagged ⊢
      split at flagged
      · next same => exact ⟨s, List.mem_cons_self, same, (if_pos same).symm⟩
      · next other =>
          obtain ⟨found, member, nameEq, levelEq⟩ := ih flagged
          exact ⟨found, List.mem_cons_of_mem _ member, nameEq, by rw [if_neg other, levelEq]⟩

/-- Only a student's name and level count. -/
theorem attended_congr {entries : Entries Time} {now : Time} {s other : Student}
    (name : s.student = other.student) (level : s.struggle = other.struggle) :
    attended entries now s = attended entries now other := by
  unfold attended flaggedBefore
  rw [name, level]

theorem foldl_entries (entries : Entries Time) (now : Time) {students : List Student}
    (once : (students.map Student.student).Nodup) (result : Update Time) (name : JsString) :
    (students.foldl (updateStudent entries now) result).entries name =
      if rankOf (levelIn students name) = 0 then result.entries name
      else attended entries now ⟨name, levelIn students name, none⟩ := by
  induction students generalizing result with
  | nil => rfl
  | cons s students ih =>
      obtain ⟨alone, once⟩ := List.nodup_cons.mp once
      rw [List.foldl_cons, ih once, levelIn_cons, updateStudent_entries]
      by_cases same : s.student = name
      · have absent : levelIn students name = .ok := levelIn_of_not_mem (same ▸ alone)
        have unflagged : rankOf .ok = 0 := rfl
        rw [absent, if_pos unflagged, if_pos same]
        split
        · rfl
        · rw [← same, Function.update_self]
          exact attended_congr rfl rfl
      · rw [if_neg same]
        split
        · split
          · rfl
          · rw [Function.update_of_ne (Ne.symm same)]
        · rfl

theorem foldl_escalated (entries : Entries Time) (now : Time) (students : List Student)
    (result : Update Time) :
    (students.foldl (updateStudent entries now) result).escalated =
      result.escalated ++ (students.filter (escalates entries)).map Student.student := by
  induction students generalizing result with
  | nil => simp
  | cons s students ih =>
      rw [List.foldl_cons, ih, updateStudent_escalated, List.filter_cons]
      split <;> simp

theorem update_entries (entries : Entries Time) (now : Time) {students : List Student}
    (once : (students.map Student.student).Nodup) (name : JsString) :
    (update entries students now).entries name =
      attended entries now ⟨name, levelIn students name, none⟩ := by
  rw [update, foldl_entries entries now once]
  split
  · next unflagged => rw [attended, if_pos unflagged]
  · rfl

theorem mem_escalated_iff (entries : Entries Time) (now : Time) {students : List Student}
    (once : (students.map Student.student).Nodup) (name : JsString) :
    name ∈ (update entries students now).escalated ↔
      escalates entries ⟨name, levelIn students name, none⟩ = true := by
  rw [update, foldl_escalated, List.nil_append, List.mem_map]
  constructor
  · rintro ⟨s, member, rfl⟩
    obtain ⟨listed, announced⟩ := List.mem_filter.mp member
    rw [levelIn_of_mem once listed]
    exact announced
  · intro announced
    have flagged : rankOf (levelIn students name) ≠ 0 := by
      intro none
      simp [escalates, none] at announced
    obtain ⟨s, listed, rfl, level⟩ := exists_of_levelIn flagged
    refine ⟨s, List.mem_filter.mpr ⟨listed, ?_⟩, rfl⟩
    rw [← level] at announced
    exact announced

/-! ### The rank that an entry remembers -/

/-- The rank of the entry for a run. -/
def runRank : List Level → Option Nat
  | [] => none
  | level :: run => some (worst (level :: run))

theorem lookup_rank (entries : Entries Time) (name : JsString) :
    (lookup entries name).bind Entry.rank = (entries name).bind Entry.rank := by
  unfold lookup
  cases entries name with
  | some entry => rfl
  | none =>
      dsimp only
      split <;> rfl

theorem worst_lt_iff {run : List Level} {rank : Nat} (flagged : 0 < rank) :
    worst run < rank ↔ ∀ earlier ∈ run, rankOf earlier < rank := by
  induction run with
  | nil => simpa [worst] using flagged
  | cons level run ih =>
      change max (rankOf level) (worst run) < rank ↔ _
      rw [max_lt_iff, ih, List.forall_mem_cons]

/-- A student was flagged as badly before exactly if so in the run; the entry is then
the one there was. -/
theorem flaggedBefore_eq {entries : Entries Time} {s : Student} {run : List Level}
    (flagged : 0 < rankOf s.struggle)
    (tracked : (entries s.student).bind Entry.rank = runRank run) :
    (worst run < rankOf s.struggle ∧ flaggedBefore entries s = none) ∨
      (rankOf s.struggle ≤ worst run ∧ flaggedBefore entries s = entries s.student ∧
        ∃ entry, entries s.student = some entry ∧ entry.rank = some (worst run)) := by
  cases run with
  | nil =>
      refine .inl ⟨flagged, ?_⟩
      rw [← lookup_rank] at tracked
      unfold flaggedBefore
      cases found : lookup entries s.student with
      | none => rfl
      | some entry =>
          rw [found] at tracked
          have unranked : entry.rank = none := tracked
          simp [unranked]
  | cons level run =>
      obtain ⟨entry, found, ranked⟩ := Option.bind_eq_some_iff.mp tracked
      have looked : lookup entries s.student = some entry := by rw [lookup, found]
      unfold flaggedBefore
      rw [looked, found]
      by_cases less : worst (level :: run) < rankOf s.struggle
      · exact .inl ⟨less, by simp [ranked, not_le.mpr less]⟩
      · exact .inr ⟨not_lt.mp less, by simp [ranked, not_lt.mp less], entry, rfl, ranked⟩

theorem levels_update (calls : List (Call Time)) (students : List Student) (now : Time)
    (name : JsString) :
    levels (calls ++ [.update students now]) name =
      levelIn students name :: levels calls name := by
  simp [levels]

theorem after_concat (calls : List (Call Time)) (call : Call Time) :
    after (calls ++ [call]) = step (after calls) call := by
  rw [after, List.foldl_append]
  rfl

/-- Marks leave the rank alone. -/
theorem rank_mark (entries : Entries Time) {change : Entry Time → Entry Time}
    (kept : ∀ entry, (change entry).rank = entry.rank) (student name : JsString) :
    (mark entries student change name).bind Entry.rank = (entries name).bind Entry.rank := by
  unfold mark
  cases found : lookup entries student with
  | none => rfl
  | some entry =>
      dsimp only
      by_cases same : name = student
      · rw [same, Function.update_self, ← lookup_rank entries student, found]
        exact kept entry
      · rw [Function.update_of_ne same]

/-- What one update leaves of a student whose entry remembers the run. -/
theorem rank_attended {entries : Entries Time} {s : Student} {run : List Level} (now : Time)
    (flagged : 0 < rankOf s.struggle)
    (tracked : (entries s.student).bind Entry.rank = runRank run) :
    (attended entries now s).bind Entry.rank = runRank (s.struggle :: run) := by
  have whole : worst (s.struggle :: run) = max (rankOf s.struggle) (worst run) := rfl
  rw [attended, if_neg flagged.ne', runRank, whole]
  rcases flaggedBefore_eq flagged tracked with ⟨less, fresh⟩ | ⟨more, same, entry, found, ranked⟩
  · rw [fresh, max_eq_left less.le]
    rfl
  · rw [same, found, max_eq_right more]
    exact ranked

/-- In every history an entry remembers the worst rank of the current run. -/
theorem after_tracks {calls : List (Call Time)} (proper : ∀ call ∈ calls, call.Proper)
    (name : JsString) : (after calls name).bind Entry.rank = runRank (currentRun calls name) := by
  induction calls using List.reverseRecOn with
  | nil => rfl
  | append_singleton calls call ih =>
      have tracked := ih fun earlier member => proper earlier (List.mem_append_left _ member)
      rw [after_concat]
      cases call with
      | update students now =>
          have own : (Call.update students now).Proper := proper _ (by simp)
          change ((update (after calls) students now).entries name).bind _ = _
          rw [update_entries _ _ own.1, currentRun, levels_update]
          by_cases unflagged : rankOf (levelIn students name) = 0
          · rw [List.takeWhile_cons_of_neg (by simpa using unflagged), attended, if_pos unflagged]
            rfl
          · rw [List.takeWhile_cons_of_pos (by simpa using unflagged)]
            exact rank_attended now (Nat.pos_of_ne_zero unflagged) tracked
      | markSeen student now =>
          have levelsEq : currentRun (calls ++ [.markSeen student now]) name =
              currentRun calls name := by simp [currentRun, levels]
          rw [levelsEq, ← tracked]
          change (markSeen (after calls) student now name).bind Entry.rank = _
          unfold markSeen
          apply rank_mark
          intro entry
          rfl
      | snooze student ends =>
          have levelsEq : currentRun (calls ++ [.snooze student ends]) name =
              currentRun calls name := by simp [currentRun, levels]
          rw [levelsEq, ← tracked]
          change (snooze (after calls) student ends name).bind Entry.rank = _
          unfold snooze
          apply rank_mark
          intro entry
          rfl

/-! ### What every update does -/

theorem eq_help_iff {level : Level} : level = .help ↔ rankOf level = 2 := by
  cases level <;> decide

theorem rankOf_le (level : Level) : rankOf level ≤ 2 := by
  cases level <;> decide

/-- After any calls, an update keeps the students it finds flagged, announces who needs
help for the first time since they were last not flagged, and drops the marks of those
it finds newly flagged or worse than ever since. -/
theorem update_attends {history : List (Call Time)} {students : List Student} {now : Time}
    (proper : ∀ call ∈ history, call.Proper) (listed : (Call.update students now).Proper) :
    Attends history students now := by
  have entry_eq := update_entries (after history) now listed.1
  have before (name : JsString) (flagged : 0 < rankOf (levelIn students name)) :=
    @flaggedBefore_eq _ (after history) ⟨name, levelIn students name, none⟩ _ flagged
      (after_tracks proper name)
  constructor
  · intro name
    rw [entry_eq, attended]
    split
    · next unflagged => simp [unflagged]
    · next flagged => simpa using flagged
  · intro name
    rw [mem_escalated_iff _ _ listed.1, escalates, Bool.and_eq_true, decide_eq_true_iff,
      ← eq_help_iff]
    apply and_congr_right
    intro help
    have rank : rankOf (levelIn students name) = 2 := eq_help_iff.mp help
    have never : (∀ earlier ∈ currentRun history name, earlier ≠ .help) ↔
        worst (currentRun history name) < 2 := by
      rw [worst_lt_iff (by decide)]
      apply forall₂_congr
      intro earlier _
      rw [Ne, eq_help_iff]
      have := rankOf_le earlier
      omega
    rw [never]
    rcases before name (by omega) with ⟨less, fresh⟩ | ⟨more, same, entry, found, _⟩
    · rw [rank] at less
      rw [fresh]
      exact iff_of_true rfl less
    · rw [rank] at more
      rw [same, found]
      exact iff_of_false Bool.false_ne_true (not_lt.mpr more)
  · rw [update, foldl_escalated, List.nil_append]
    exact listed.1.sublist (List.filter_sublist.map _)
  · intro name entry found worse
    rw [entry_eq, attended] at found
    split at found
    · cases found
    · next flagged =>
        have all : ∀ earlier ∈ currentRun history name,
            rankOf earlier < rankOf (levelIn students name) := by
          rcases worse with empty | all
          · simp [empty]
          · exact all
        have less := (worst_lt_iff (Nat.pos_of_ne_zero flagged)).mpr all
        rcases before name (Nat.pos_of_ne_zero flagged) with ⟨_, fresh⟩ | ⟨more, _⟩
        · rw [fresh] at found
          obtain rfl := Option.some.inj found
          exact ⟨rfl, rfl⟩
        · exact absurd less (not_lt.mpr more)
  · rintro name entry found ⟨earlier, member, least⟩
    rw [entry_eq, attended] at found
    split at found
    · cases found
    · next flagged =>
        rcases before name (Nat.pos_of_ne_zero flagged) with
          ⟨less, _⟩ | ⟨_, same, own, stored, _⟩
        · have all := (worst_lt_iff (Nat.pos_of_ne_zero flagged)).mp less
          exact absurd (all earlier member) (not_lt.mpr least)
        · rw [same, stored] at found
          obtain rfl := Option.some.inj found
          exact ⟨_, stored, rfl, rfl⟩

theorem update_attends_worse :
    Attends [.update [⟨js "ada", .watch, none⟩] 10, .markSeen (js "ada") 20,
      .update [⟨js "ada", .watch, none⟩] 30] [⟨js "ada", .help, none⟩] 40 :=
  update_attends (by decide) (by decide)

/-! ### Who waits -/

section Waiting

variable [LinearOrder Time] (localeCompare : JsString → JsString → Int)

theorem mem_unseen_iff {entries : Entries Time} {students : List Student} {now : Time}
    {s : Student} : s ∈ unseen localeCompare entries students now ↔
      s ∈ students ∧ rankOf s.struggle ≠ 0 ∧ isSeen entries s.student = false ∧
        isSnoozed entries s.student now = false := by
  rw [unseen, List.mem_mergeSort, List.mem_filter]
  simp [and_assoc]

/-- Whoever an update finds newly flagged or worse than ever waits for the teacher. -/
theorem mem_unseen_of_worse {history : List (Call Time)} {students : List Student} {now : Time}
    (proper : ∀ call ∈ history, call.Proper) (listed : (Call.update students now).Proper)
    {s : Student} (member : s ∈ students) (flagged : rankOf s.struggle ≠ 0)
    (worse : ∀ earlier ∈ currentRun history s.student, rankOf earlier < rankOf s.struggle)
    (later : Time) :
    s ∈ unseen localeCompare (update (after history) students now).entries students later := by
  have attends := update_attends proper listed
  have level := levelIn_of_mem listed.1 member
  have some_entry := (attends.entries s.student).mpr (by rwa [level])
  obtain ⟨entry, found⟩ := Option.isSome_iff_exists.mp some_entry
  obtain ⟨unmarked, awake⟩ := attends.dropped s.student entry found (.inr (by rwa [level]))
  have looked : lookup (update (after history) students now).entries s.student = some entry := by
    rw [lookup, found]
  rw [mem_unseen_iff]
  refine ⟨member, flagged, ?_, ?_⟩
  · simp [isSeen, looked, unmarked]
  · simp [isSnoozed, looked, awake]

/-- The next one to go to is somebody who waits. -/
theorem next_eq_none_iff {entries : Entries Time} {students : List Student} {now : Time} :
    next localeCompare entries students now = none ↔
      ∀ s ∈ students, rankOf s.struggle ≠ 0 →
        isSeen entries s.student = true ∨ isSnoozed entries s.student now = true := by
  rw [next, List.head?_eq_none_iff, List.eq_nil_iff_forall_not_mem]
  apply forall_congr'
  intro s
  rw [mem_unseen_iff]
  cases isSeen entries s.student <;> cases isSnoozed entries s.student now <;> simp

end Waiting

end Attention

end Hermione
