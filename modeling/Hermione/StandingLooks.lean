import Hermione.RememberedLooks
import Hermione.StableSorts

/-!
# Which looks stand

What is stored is, of the looks in the order in which the files were last kept, the end.  A
look at a file that is too big is forgotten at once, but the one before it stands.
-/

namespace Hermione

namespace Since

namespace Remembered

open Recency (put inOrder LastOf Keeps)

/-! ### One call -/

theorem entries_perm (looks : Looks) : (entries looks).Perm looks :=
  ((List.mergeSort_perm _ _).append_right _).trans (List.filter_append_perm _ looks)

theorem set_perm {looks : Looks} (once : (looks.map Prod.fst).Nodup) {path : JsString}
    (own : path ≠ js "__proto__") (look : Look) :
    (set looks path look).Perm (put Prod.fst looks (path, look)) := by
  rw [set, if_neg own]
  split
  case isFalse absent =>
    rw [put, Recency.filter_key_ne_of_not_mem absent]
  case isTrue known =>
    induction looks with
    | nil => cases known
    | cons entry looks ih =>
        obtain ⟨new, rest⟩ := List.nodup_cons.mp once
        rw [List.map_cons]
        by_cases here : entry.1 = path
        · have others : path ∉ looks.map Prod.fst := here ▸ new
          have same : (looks.map fun entry => if entry.1 = path then (path, look) else entry) =
              looks := by
            refine (List.map_congr_left ?_).trans looks.map_id
            intro other listed
            refine if_neg ?_
            rintro rfl
            exact others (List.mem_map_of_mem listed)
          rw [if_pos here, same, put, List.filter_cons_of_neg (by simpa using here),
            Recency.filter_key_ne_of_not_mem others]
          exact (List.perm_append_singleton (path, look) looks).symm
        · have there : path ∈ looks.map Prod.fst :=
            (List.mem_cons.mp known).resolve_left (Ne.symm here)
          rw [if_neg here, put, List.filter_cons_of_pos (by simpa using here), List.cons_append]
          exact (ih rest there).cons entry

/-- Looks in the order of their times. -/
def InTime (looks : Looks) : Prop :=
  looks.Pairwise fun first second => first.2.time < second.2.time

theorem sort_eq {looks ordered : Looks} (same : looks.Perm ordered) (inTime : InTime ordered) :
    (looks.mergeSort fun first second => second.2.time - first.2.time ≤ 0) = ordered.reverse := by
  have reversed : ordered.reverse.Pairwise fun first second =>
      decide (second.2.time - first.2.time ≤ 0) = true := by
    rw [List.pairwise_reverse]
    refine inTime.imp ?_
    intro first second earlier
    exact decide_eq_true (by omega)
  refine (StableSorts.mergeSort_eq_of_apart ?_ ?_ (same.trans ordered.reverse_perm.symm) ?_).trans
    (List.mergeSort_of_pairwise reversed)
  · intro first second third before after
    simp only [decide_eq_true_eq] at before after ⊢
    omega
  · intro first second
    simp only [Bool.or_eq_true, decide_eq_true_eq]
    omega
  · -- No two looks are of one time.
    intro first listed second member before after
    have times : (ordered.map fun entry => entry.2.time).Nodup :=
      List.pairwise_map.mpr (inTime.imp ne_of_lt)
    rw [decide_eq_true_eq] at before after
    exact List.inj_on_of_nodup_map times (List.mem_reverse.mp listed) (List.mem_reverse.mp member)
      (by omega)

theorem fresh_of_le {now later : Int} (le : now ≤ later) {entry : JsString × Look}
    (is : fresh later entry = true) : fresh now entry = true := by
  rw [fresh, decide_eq_true_eq] at is ⊢
  omega

/-- Of looks in the order of their times, the last are fresh. -/
theorem InTime.fresh {looks : Looks} (inTime : InTime looks) (now : Int) :
    looks.Pairwise fun first second => fresh now first = true → fresh now second = true := by
  refine inTime.imp ?_
  intro first second earlier is
  rw [Remembered.fresh, decide_eq_true_eq] at is ⊢
  omega

theorem filter_fresh_fresh {now later : Int} (le : now ≤ later) (looks : Looks) :
    (looks.filter (fresh now)).filter (fresh later) = looks.filter (fresh later) := by
  rw [List.filter_filter]
  refine List.filter_congr ?_
  intro entry _
  rw [Bool.and_eq_left_iff_imp]
  exact fresh_of_le le

/-! ### What is stored -/

/-- What is stored is the end of an order of looks, as far as it is fresh. -/
structure StoresEnd (order stored : Looks) (now : Int) : Prop where
  inTime : InTime stored.reverse
  keeps : Keeps KEEP_PATHS (order.filter (fresh now)) (stored.reverse.filter (fresh now))

section Call

variable {order stored : Looks} {now : Int}

theorem readAll_perm (stored : Looks) (now : Int) :
    (readAll stored now).Perm (stored.reverse.filter (fresh now)) :=
  ((entries_perm stored).trans stored.reverse_perm.symm).filter _

theorem StoresEnd.mem (ends : StoresEnd order stored now) {entry : JsString × Look}
    (member : entry ∈ stored.reverse.filter (fresh now)) : entry ∈ order :=
  (List.mem_filter.mp (ends.keeps.ends.subset member)).1

theorem StoresEnd.nodup (ends : StoresEnd order stored now) (once : (order.map Prod.fst).Nodup) :
    ((stored.reverse.filter (fresh now)).map Prod.fst).Nodup :=
  ((ends.keeps.ends.sublist.trans List.filter_sublist).map Prod.fst).nodup once

theorem reverse_take_reverse (looks : Looks) :
    (looks.reverse.take KEEP_PATHS).reverse = looks.rtake KEEP_PATHS :=
  (List.rtake_eq_reverse_take_reverse _ _).symm

/-- A call that keeps a look writes what is fresh and the look, but for the oldest of nine. -/
theorem StoresEnd.remember_eq (ends : StoresEnd order stored now)
    (once : (order.map Prod.fst).Nodup) {call : JsString × Look} (keeps : Kept call)
    (time : call.2.time = now) (inTime : InTime (put Prod.fst order call)) :
    InTime (put Prod.fst (stored.reverse.filter (fresh now)) call) ∧
      (remember stored call.1 call.2.content call.2.time).reverse =
        Recency.trim KEEP_PATHS (put Prod.fst (stored.reverse.filter (fresh now)) call) := by
  subst time
  have written : InTime (put Prod.fst (stored.reverse.filter (fresh call.2.time)) call) := by
    refine List.pairwise_append.mpr
      ⟨(ends.inTime.filter _).filter _, List.pairwise_singleton _ _, ?_⟩
    intro entry listed
    obtain ⟨stays, other⟩ := List.mem_filter.mp listed
    exact (List.pairwise_append.mp inTime).2.2 entry (List.mem_filter.mpr ⟨ends.mem stays, other⟩)
  refine ⟨written, ?_⟩
  have read := readAll_perm stored call.2.time
  have own : ((readAll stored call.2.time).map Prod.fst).Nodup :=
    (read.map Prod.fst).nodup_iff.mpr (ends.nodup once)
  have same := ((entries_perm _).trans (set_perm own keeps.2 call.2)).trans
    (Recency.put_perm read call)
  have short := @Recency.length_put_le _ _ _ Prod.fst
    (stored.reverse.filter (fresh call.2.time)) call
  have within := ends.keeps.within
  rw [remember, if_neg (not_lt.mpr keeps.1), sort_eq same written, reverse_take_reverse,
    Recency.trim_eq_rtake (by omega)]

theorem filter_put_filter {later : Int} (le : now ≤ later) (call : JsString × Look) :
    (put Prod.fst (order.filter (fresh now)) call).filter (fresh later) =
      (put Prod.fst order call).filter (fresh later) := by
  rw [put, put, List.filter_append, List.filter_append, List.filter_comm, filter_fresh_fresh le,
    List.filter_comm]

theorem StoresEnd.keep (ends : StoresEnd order stored now)
    (once : (order.map Prod.fst).Nodup) {call : JsString × Look} (keeps : Kept call)
    (time : call.2.time = now) (inTime : InTime (put Prod.fst order call)) {later : Int}
    (le : now ≤ later) :
    StoresEnd (put Prod.fst order call)
      (remember stored call.1 call.2.content call.2.time) later := by
  obtain ⟨written, reversed⟩ := ends.remember_eq once keeps time inTime
  refine ⟨?_, ?_⟩
  · rw [reversed]
    exact written.sublist (Recency.trim_sublist _ _)
  · have some : ((order.filter (fresh now)).map Prod.fst).Nodup :=
      (List.filter_sublist.map Prod.fst).nodup once
    have fewer : InTime (put Prod.fst (order.filter (fresh now)) call) :=
      inTime.sublist ((List.filter_sublist.filter _).append (List.Sublist.refl _))
    have stays := (ends.keeps.put (by decide) some call).filter (fewer.fresh later)
    rwa [filter_put_filter le, ← reversed] at stays

/-- A call for `__proto__` only drops what is not fresh. -/
theorem StoresEnd.drop (ends : StoresEnd order stored now) {look : Look}
    (short : look.content.length ≤ MAX_STORED_CHARS) (time : look.time = now) {later : Int}
    (le : now ≤ later) (keeps : Keeps KEEP_PATHS (order.filter (fresh later))
      (stored.reverse.filter (fresh later))) :
    StoresEnd order (remember stored (js "__proto__") look.content look.time) later := by
  subst time
  have reversed : (remember stored (js "__proto__") look.content look.time).reverse =
      stored.reverse.filter (fresh look.time) := by
    have within := ends.keeps.within
    rw [remember, if_neg (not_lt.mpr short), set, if_pos rfl,
      sort_eq ((entries_perm _).trans (readAll_perm stored look.time)) (ends.inTime.filter _),
      reverse_take_reverse, List.rtake, Nat.sub_eq_zero_of_le within, List.drop_zero]
  refine ⟨?_, ?_⟩
  · rw [reversed]
    exact ends.inTime.filter _
  · rw [reversed, filter_fresh_fresh le]
    exact keeps

theorem StoresEnd.forget (ends : StoresEnd order stored now) {path content : JsString}
    (long : ¬content.length ≤ MAX_STORED_CHARS) (time : Int) :
    StoresEnd order (remember stored path content time) now := by
  rw [remember, if_pos (not_le.mp long)]
  exact ends

end Call

/-! ### Many calls -/

theorem stored_concat (calls : Looks) (call : JsString × Look) :
    stored (calls ++ [call]) =
      remember (stored calls) call.1 call.2.content call.2.time := by
  rw [stored, List.foldl_concat]
  rfl

theorem kept_concat (calls : Looks) (call : JsString × Look) :
    kept (calls ++ [call]) = if Kept call then kept calls ++ [call] else kept calls := by
  rw [kept, List.filter_append, ← kept]
  split
  case isTrue keeps => rw [List.filter_cons_of_pos (by simpa using keeps), List.filter_nil]
  case isFalse forgets =>
    rw [List.filter_cons_of_neg (by simpa using forgets), List.filter_nil, List.append_nil]

theorem inTime_inOrder {calls : Looks} (inTime : InTime calls) :
    InTime (inOrder Prod.fst (kept calls)) :=
  inTime.sublist ((Recency.inOrder_sublist _).trans List.filter_sublist)

/-- After any calls the end of the looks that were kept is stored. -/
theorem storesEnd {calls : Looks} (inTime : InTime calls) {now : Int}
    (past : ∀ call ∈ calls, call.2.time ≤ now) :
    StoresEnd (inOrder Prod.fst (kept calls)) (stored calls) now := by
  induction calls using List.reverseRecOn generalizing now with
  | nil => exact ⟨List.Pairwise.nil, Recency.keeps_nil _⟩
  | append_singleton calls call ih =>
      obtain ⟨before, _, last⟩ := List.pairwise_append.mp inTime
      have le := past call (List.mem_append_right _ List.mem_cons_self)
      have ends := ih before fun earlier listed =>
        (last earlier listed call List.mem_cons_self).le
      have later := ih before fun earlier listed =>
        past earlier (List.mem_append_left _ listed)
      have ordered := inTime_inOrder inTime
      rw [stored_concat]
      rw [kept_concat] at ordered ⊢
      by_cases keeps : Kept call
      · rw [if_pos keeps, Recency.inOrder_concat] at ordered ⊢
        exact ends.keep (Recency.nodup_inOrder _) keeps rfl ordered le
      rw [if_neg keeps]
      by_cases short : call.2.content.length ≤ MAX_STORED_CHARS
      · have proto : call.1 = js "__proto__" := by
          by_contra own
          exact keeps ⟨short, own⟩
        rw [proto]
        exact ends.drop short rfl le later.keeps
      · exact later.forget short call.2.time

/-! ### What is recalled -/

section Recalled

variable {calls : Looks} {now : Int} {path : JsString}

/-- A look is recalled if and only if it stands. -/
theorem mem_readAll_iff (inTime : InTime calls) (past : ∀ call ∈ calls, call.2.time ≤ now)
    {look : Look} : (path, look) ∈ readAll (stored calls) now ↔ Stands calls now path look := by
  have ends := storesEnd inTime past
  have order := inTime_inOrder inTime
  rw [(readAll_perm _ _).mem_iff, ends.keeps.eq_rtake,
    ← ((Recency.keeps_rtake KEEP_PATHS _).filter (order.fresh now)).eq_rtake, List.mem_filter,
    Recency.mem_rtake_inOrder, fresh, decide_eq_true_eq, Stands]
  constructor
  · rintro ⟨⟨after, last, few⟩, young⟩
    exact ⟨after, last, few, young⟩
  · rintro ⟨after, last, few, young⟩
    exact ⟨⟨after, last, few⟩, young⟩

theorem recall_of_stands (inTime : InTime calls) (past : ∀ call ∈ calls, call.2.time ≤ now)
    {look : Look} (stands : Stands calls now path look) :
    recall' (stored calls) path now = .look look := by
  have member := (mem_readAll_iff inTime past).mpr stands
  rw [recall']
  cases found : (readAll (stored calls) now).find? fun entry => entry.1 = path with
  | none =>
      have other := List.find?_eq_none.mp found _ member
      exact absurd (decide_eq_true rfl) other
  | some entry =>
      have same := List.find?_some found
      obtain ⟨path, recalled⟩ := entry
      cases of_decide_eq_true same
      obtain ⟨_, last, _⟩ := stands
      obtain ⟨_, latest, _⟩ := (mem_readAll_iff inTime past).mp (List.mem_of_find?_eq_some found)
      cases last.unique latest rfl
      rfl

theorem recall_of_not_stands (inTime : InTime calls)
    (past : ∀ call ∈ calls, call.2.time ≤ now) (none : ∀ look, ¬Stands calls now path look) :
    recall' (stored calls) path now =
      if path ∈ Attention.inherited ∨ path = js "__proto__" then .inherited else .null := by
  rw [recall']
  have unknown : ((readAll (stored calls) now).find? fun entry => entry.1 = path) = .none := by
    rw [List.find?_eq_none]
    intro entry listed same
    refine none entry.2 ((mem_readAll_iff inTime past).mp ?_)
    rw [← of_decide_eq_true same]
    exact listed
  rw [unknown]

/-- The last look at a file that is small enough stands until others come. -/
theorem stands_of_lastOf (own : path ≠ js "__proto__") {look : Look} {after : Looks}
    (last : LastOf Prod.fst calls (path, look) after)
    (short : look.content.length ≤ MAX_STORED_CHARS)
    (few : ((kept after).map Prod.fst).dedup.length < KEEP_PATHS)
    (young : now - look.time ≤ MAX_AGE_MS) : Stands calls now path look :=
  ⟨kept after, last.filter (decide_eq_true ⟨short, own⟩), few, young⟩

theorem Stands.short {look : Look} (stands : Stands calls now path look) :
    look.content.length ≤ MAX_STORED_CHARS ∧ path ≠ js "__proto__" := by
  obtain ⟨_, last, _⟩ := stands
  exact of_decide_eq_true (List.mem_filter.mp last.mem).2

/-- A look that stands is the last look, if the last look has its content. -/
theorem Stands.lastOf {look found : Look} (stands : Stands calls now path found) {after : Looks}
    (last : LastOf Prod.fst calls (path, look) after) (same : found.content = look.content) :
    LastOf Prod.fst calls (path, found) after := by
  obtain ⟨short, own⟩ := stands.short
  have keeps : Kept (path, look) := ⟨same ▸ short, own⟩
  obtain ⟨_, latest, _⟩ := stands
  cases (last.filter (decide_eq_true keeps)).unique latest rfl
  exact last

theorem RecallsLast.ne_inherited (recalled : RecallsLast calls now path) :
    recall' (stored calls) path now ≠ .inherited := by
  rcases recalled with nothing | ⟨_, _, _, _, found, _⟩
  · rw [nothing]
    nofun
  · rw [found]
    nofun

theorem RecallsLast.lastOf (recalled : RecallsLast calls now path) {found : Look}
    (value : recall' (stored calls) path now = .look found) :
    ∃ look after, LastOf Prod.fst calls (path, look) after ∧ found.content = look.content := by
  rcases recalled with nothing | ⟨look, after, _, last, is, same⟩
  · rw [value] at nothing
    cases nothing
  · rw [value] at is
    cases is
    exact ⟨look, after, last, same⟩

/-- What is recalled of a path is its last look, and for long enough, exactly if it is no
name that objects inherit, or a look at it stands, and if no later look at it was too big. -/
theorem recalls_iff (calls : Looks) (now : Int) (path : JsString) (inTime : InTime calls)
    (past : ∀ call ∈ calls, call.2.time ≤ now) :
    RecallsLast calls now path ∧ RecallsRecent calls now path ↔
      path ≠ js "__proto__" ∧
        (path ∈ Attention.inherited → ∃ look, Stands calls now path look) ∧
        ∀ look, Stands calls now path look →
          ∃ after, LastOf Prod.fst calls (path, look) after := by
  constructor
  · rintro ⟨recalled, -⟩
    have none_inherits (none : ∀ look, ¬Stands calls now path look) :
        ¬(path ∈ Attention.inherited ∨ path = js "__proto__") := by
      intro inherits
      have value := recall_of_not_stands inTime past none
      rw [if_pos inherits] at value
      exact recalled.ne_inherited value
    refine ⟨?_, ?_, ?_⟩
    · intro proto
      exact none_inherits (fun look stands => stands.short.2 proto) (.inr proto)
    · intro inherits
      by_contra none
      exact none_inherits (not_exists.mp none) (.inl inherits)
    · intro look stands
      obtain ⟨_, after, last, same⟩ := recalled.lastOf (recall_of_stands inTime past stands)
      exact ⟨after, stands.lastOf last same⟩
  · rintro ⟨own, inherits, latest⟩
    refine ⟨?_, ?_⟩
    · by_cases some : ∃ look, Stands calls now path look
      · obtain ⟨look, stands⟩ := some
        obtain ⟨after, last⟩ := latest look stands
        exact .inr ⟨look, after, look, last, recall_of_stands inTime past stands, rfl⟩
      · left
        rw [recall_of_not_stands inTime past (not_exists.mp some), if_neg]
        exact not_or.mpr ⟨fun inherited => some (inherits inherited), own⟩
    · intro look after last short few young
      exact recall_of_stands inTime past (stands_of_lastOf own last short few young.le)

end Recalled

theorem recalls_iff_once :
    RecallsLast [(js "a.py", ⟨js "x", 0⟩)] 1 (js "a.py") ∧
      RecallsRecent [(js "a.py", ⟨js "x", 0⟩)] 1 (js "a.py") := by
  refine (recalls_iff _ 1 (js "a.py") (List.pairwise_singleton _ _) (by simp)).mpr
    ⟨by decide, fun inherits => absurd inherits (by decide), ?_⟩
  rintro look ⟨after, last, _⟩
  refine ⟨after, ?_⟩
  rwa [show kept [(js "a.py", ⟨js "x", 0⟩)] = [(js "a.py", ⟨js "x", 0⟩)] by decide] at last

/-- A look at a file that is too big leaves the look before it. -/
theorem recall_older {path small big : JsString} (own : path ≠ js "__proto__")
    (short : small.length ≤ MAX_STORED_CHARS) (long : ¬big.length ≤ MAX_STORED_CHARS) :
    recall' (stored [(path, ⟨small, 0⟩), (path, ⟨big, 1⟩)]) path 2 = .look ⟨small, 0⟩ := by
  refine recall_of_stands (by simp [InTime]) (by simp) ⟨[], ⟨⟨[], ?_⟩, List.not_mem_nil⟩, ?_, ?_⟩
  · simp [kept, Kept, short, long, own]
  · decide
  · rw [Int.sub_zero]
    decide

theorem not_recalls_last :
    ¬∀ (calls : Looks) (now : Int) (path : JsString), InTime calls →
      (∀ call ∈ calls, call.2.time ≤ now) →
      RecallsLast calls now path ∧ RecallsRecent calls now path := by
  intro recalls
  obtain ⟨big, long⟩ : ∃ big : JsString, ¬big.length ≤ MAX_STORED_CHARS := by
    refine ⟨List.replicate 100001 97, ?_⟩
    rw [List.length_replicate]
    decide
  have small : (js "x").length ≤ MAX_STORED_CHARS := by decide
  obtain ⟨recalled, -⟩ := recalls [(js "a.py", ⟨js "x", 0⟩), (js "a.py", ⟨big, 1⟩)] 2 (js "a.py")
    (by simp [InTime]) (by simp)
  obtain ⟨look, after, last, same⟩ := recalled.lastOf (recall_older (by decide) small long)
  have latest : LastOf Prod.fst [(js "a.py", ⟨js "x", 0⟩), (js "a.py", (⟨big, 1⟩ : Look))]
      (js "a.py", ⟨big, 1⟩) [] := ⟨⟨[_], rfl⟩, List.not_mem_nil⟩
  cases last.unique latest rfl
  have equal : js "x" = big := same
  rw [← equal] at long
  exact long small

end Remembered

end Since

end Hermione
