import Mathlib.Data.List.Dedup
import Mathlib.Data.List.DropRight

/-!
# The most recently requested

Of everything that was requested, in the order in which it was last requested, a bounded
store keeps the end.  It needs to know no more than what it keeps: what is requested goes to
the end, and the first is left out when there are too many.
-/

namespace Recency

variable {α : Type*}

/-- The first is left out when there are too many. -/
def trim (limit : Nat) (kept : List α) : List α :=
  if limit < kept.length then kept.tail else kept

/-- What is kept is the end of an order, and all of it if that is not too long. -/
structure Keeps (limit : Nat) (order kept : List α) : Prop where
  ends : kept <:+ order
  within : kept.length ≤ limit
  full : kept = order ∨ kept.length = limit

theorem keeps_nil (limit : Nat) : Keeps limit ([] : List α) [] :=
  ⟨List.suffix_rfl, Nat.zero_le _, .inl rfl⟩

theorem Keeps.eq_rtake {limit : Nat} {order kept : List α} (keeps : Keeps limit order kept) :
    kept = order.rtake limit := by
  obtain ⟨front, rfl⟩ := keeps.ends
  rw [List.rtake, List.length_append]
  rcases keeps.full with all | full
  · have none : front = [] := List.self_eq_append_left.mp all
    have within := keeps.within
    rw [none, List.length_nil, Nat.zero_add, Nat.sub_eq_zero_of_le within, List.nil_append,
      List.drop_zero]
  · rw [← full, Nat.add_sub_cancel, List.drop_left]

theorem keeps_rtake (limit : Nat) (order : List α) : Keeps limit order (order.rtake limit) := by
  refine ⟨List.drop_suffix _ _, ?_, ?_⟩
  · rw [List.rtake, List.length_drop]
    omega
  · rw [List.rtake, List.length_drop]
    by_cases short : order.length ≤ limit
    · left
      rw [Nat.sub_eq_zero_of_le short, List.drop_zero]
    · right
      omega

theorem trim_sublist (limit : Nat) (kept : List α) : (trim limit kept).Sublist kept := by
  rw [trim]
  split
  · exact List.tail_sublist kept
  · exact List.Sublist.refl kept

theorem trim_eq_rtake {limit : Nat} {kept : List α} (short : kept.length ≤ limit + 1) :
    trim limit kept = kept.rtake limit := by
  rw [trim, List.rtake]
  split
  · have one : kept.length - limit = 1 := by omega
    rw [one, List.drop_one]
  · have none : kept.length - limit = 0 := by omega
    rw [none, List.drop_zero]

/-- What is left of both sides when some of the order are asked for, of whom the last are
asked for if any one is. -/
theorem Keeps.filter {limit : Nat} {order kept : List α} (keeps : Keeps limit order kept)
    {wanted : α → Bool}
    (later : order.Pairwise fun first second => wanted first = true → wanted second = true) :
    Keeps limit (order.filter wanted) (kept.filter wanted) := by
  obtain ⟨⟨front, rfl⟩, within, full⟩ := keeps
  have fewer := List.length_filter_le wanted kept
  rw [List.filter_append]
  refine ⟨List.suffix_append _ _, fewer.trans within, ?_⟩
  rcases full with all | full
  · left
    rw [List.self_eq_append_left.mp all, List.filter_nil, List.nil_append]
  by_cases whole : ∀ entry ∈ kept, wanted entry = true
  · right
    rw [List.filter_eq_self.mpr whole, full]
  · left
    have none : front.filter wanted = [] := by
      rw [List.filter_eq_nil_iff]
      intro entry listed is
      exact whole fun other member =>
        (List.pairwise_append.mp later).2.2 entry listed other member is
    rw [none, List.nil_append]

/-- There is an entry, and none of those after it has its key. -/
structure LastOf {κ : Type*} (key : α → κ) (entries : List α) (entry : α) (after : List α) :
    Prop where
  split : ∃ before, entries = before ++ entry :: after
  fresh : key entry ∉ after.map key

section LastOf

variable {κ : Type*} {key : α → κ} {entries after others : List α} {entry other : α}

theorem LastOf.mem (last : LastOf key entries entry after) : entry ∈ entries := by
  obtain ⟨before, rfl⟩ := last.split
  exact List.mem_append_right _ List.mem_cons_self

/-- A key has one last entry. -/
theorem LastOf.unique (last : LastOf key entries entry after)
    (second : LastOf key entries other others) (same : key entry = key other) :
    entry = other := by
  obtain ⟨⟨front, split⟩, fresh⟩ := last
  obtain ⟨⟨before, rfl⟩, none⟩ := second
  rcases List.append_eq_append_iff.mp split with ⟨between, _, tail⟩ | ⟨between, _, tail⟩
  · rcases List.cons_eq_append_iff.mp tail with ⟨_, here⟩ | ⟨_, _, later⟩
    · exact (List.cons.inj here).1
    · refine absurd ?_ none
      rw [later, ← same]
      exact List.mem_map_of_mem (List.mem_append_right _ List.mem_cons_self)
  · rcases List.cons_eq_append_iff.mp tail with ⟨_, here⟩ | ⟨_, _, later⟩
    · exact (List.cons.inj here).1.symm
    · refine absurd ?_ fresh
      rw [later, same]
      exact List.mem_map_of_mem (List.mem_append_right _ List.mem_cons_self)

theorem LastOf.filter (last : LastOf key entries entry after) {wanted : α → Bool}
    (is : wanted entry = true) :
    LastOf key (entries.filter wanted) entry (after.filter wanted) := by
  obtain ⟨⟨before, rfl⟩, fresh⟩ := last
  refine ⟨⟨before.filter wanted, ?_⟩, ?_⟩
  · rw [List.filter_append, List.filter_cons_of_pos is]
  · exact fun member => fresh ((List.filter_sublist.map key).subset member)

end LastOf

/-- An entry is at the end if few come after it. -/
theorem mem_rtake_append_cons {front back : List α} {entry : α} (early : entry ∉ front)
    (late : entry ∉ back) (limit : Nat) :
    entry ∈ (front ++ entry :: back).rtake limit ↔ back.length < limit := by
  rw [List.rtake, List.length_append, List.length_cons, List.drop_append, List.mem_append]
  constructor
  · rintro (before | found)
    · exact absurd (List.mem_of_mem_drop before) early
    by_contra many
    obtain ⟨beyond, more⟩ : ∃ beyond,
        front.length + (back.length + 1) - limit - front.length = beyond + 1 :=
      ⟨back.length - limit, by omega⟩
    rw [more, List.drop_succ_cons] at found
    exact late (List.mem_of_mem_drop found)
  · intro few
    right
    have all : front.length + (back.length + 1) - limit - front.length = 0 := by omega
    rw [all, List.drop_zero]
    exact List.mem_cons_self

section Keyed

variable {κ : Type*} [DecidableEq κ] (key : α → κ)

/-- What has the key of the new entry gives way to it, and it goes to the end. -/
def put (order : List α) (entry : α) : List α :=
  order.filter (fun other => key other ≠ key entry) ++ [entry]

variable {key}

theorem filter_key_ne_of_not_mem {order : List α} {one : κ} (absent : one ∉ order.map key) :
    order.filter (fun other => key other ≠ one) = order := by
  rw [List.filter_eq_self]
  intro other listed
  apply decide_eq_true
  rintro rfl
  exact absent (List.mem_map_of_mem listed)

theorem length_put_le (kept : List α) (entry : α) :
    (put key kept entry).length ≤ kept.length + 1 := by
  rw [put, List.length_append, List.length_singleton]
  exact Nat.add_le_add_right (List.length_filter_le _ _) 1

theorem put_perm {kept others : List α} (same : kept.Perm others) (entry : α) :
    (put key kept entry).Perm (put key others entry) :=
  (same.filter _).append (List.Perm.refl _)

theorem length_put_of_mem {kept : List α} (once : (kept.map key).Nodup) {entry : α}
    (known : key entry ∈ kept.map key) : (put key kept entry).length = kept.length := by
  have others : ((kept.map key).filter (· ≠ key entry)).length =
      ((kept.map key).erase (key entry)).length := by
    rw [once.erase_eq_filter]
    exact congrArg List.length (List.filter_congr fun other _ => by
      rw [Bool.eq_iff_iff]
      simp)
  have some := List.length_pos_of_mem known
  rw [List.filter_map, List.length_map, List.length_erase_of_mem known] at others
  rw [List.length_map] at some others
  have rest : (kept.filter fun other => key other ≠ key entry).length = kept.length - 1 := others
  rw [put, List.length_append, List.length_singleton, rest]
  omega

/-- A store that keeps the end of an order keeps that of the order one entry later. -/
theorem Keeps.put {limit : Nat} {order kept : List α} (positive : 0 < limit)
    (once : (order.map key).Nodup) (keeps : Keeps limit order kept) (entry : α) :
    Keeps limit (put key order entry) (trim limit (put key kept entry)) := by
  obtain ⟨⟨front, rfl⟩, within, full⟩ := keeps
  rw [List.map_append] at once
  obtain ⟨_, keptOnce, apart⟩ := List.nodup_append.mp once
  have whole : Recency.put key (front ++ kept) entry =
      front.filter (fun other => key other ≠ key entry) ++ Recency.put key kept entry := by
    rw [Recency.put, List.filter_append, List.append_assoc]
    rfl
  rw [whole, trim]
  by_cases known : key entry ∈ kept.map key
  · -- Its key is among what is kept, which is as long as before.
    have long := length_put_of_mem keptOnce known
    have other : key entry ∉ front.map key :=
      fun early => apart (key entry) early (key entry) known rfl
    rw [if_neg (by omega), filter_key_ne_of_not_mem other]
    refine ⟨List.suffix_append _ _, by omega, ?_⟩
    rcases full with all | full
    · left
      rw [List.self_eq_append_left.mp all, List.nil_append]
    · exact .inr (by omega)
  · have added : Recency.put key kept entry = kept ++ [entry] := by
      rw [Recency.put, filter_key_ne_of_not_mem known]
    have long : (kept ++ [entry]).length = kept.length + 1 := by
      rw [List.length_append, List.length_singleton]
    rw [added]
    by_cases room : limit < (kept ++ [entry]).length
    · -- There is no room, and the first is left out.
      rw [if_pos room]
      obtain ⟨first, rest, rfl⟩ := List.exists_cons_of_length_pos (l := kept) (by omega)
      rw [List.length_cons] at long within
      rw [List.cons_append, List.tail_cons]
      refine ⟨⟨front.filter (fun other => key other ≠ key entry) ++ [first], by simp⟩, ?_, .inr ?_⟩
      · rw [List.length_append, List.length_singleton]
        omega
      · rw [List.length_append, List.length_singleton]
        omega
    · rw [if_neg room]
      refine ⟨List.suffix_append _ _, by omega, .inl ?_⟩
      have all : kept = front ++ kept := by
        rcases full with all | full
        · exact all
        · omega
      rw [List.self_eq_append_left.mp all, List.filter_nil, List.nil_append]

end Keyed

/-! ### Requests, which are their own keys -/

variable [DecidableEq α]

/-- What is requested goes to the end. -/
def touch (order : List α) (request : α) : List α :=
  order.filter (· ≠ request) ++ [request]

theorem touch_eq_put (order : List α) (request : α) : touch order request = put id order request :=
  rfl

/-- The order of last requests, one request later. -/
theorem dedup_concat (requests : List α) (request : α) :
    (requests ++ [request]).dedup = touch requests.dedup request := by
  unfold touch
  induction requests with
  | nil => simp
  | cons first requests ih =>
      rw [List.cons_append]
      by_cases again : first ∈ requests
      · rw [List.dedup_cons_of_mem again, List.dedup_cons_of_mem (List.mem_append_left _ again),
          ih]
      · by_cases same : first = request
        · subst same
          rw [List.dedup_cons_of_mem (List.mem_append_right _ List.mem_cons_self), ih,
            List.dedup_cons_of_notMem again, List.filter_cons_of_neg (by simp)]
        · have fresh : first ∉ requests ++ [request] := by
            rw [List.mem_append, List.mem_singleton, not_or]
            exact ⟨again, same⟩
          rw [List.dedup_cons_of_notMem fresh, List.dedup_cons_of_notMem again, ih,
            List.filter_cons_of_pos (by simpa using same), List.cons_append]

theorem length_touch_of_mem {kept : List α} (once : kept.Nodup) {request : α}
    (known : request ∈ kept) : (touch kept request).length = kept.length := by
  rw [touch_eq_put]
  apply length_put_of_mem <;> rwa [List.map_id]

/-- Keeping, request by request, keeps the most recently requested. -/
theorem Keeps.dedup {limit : Nat} {requests kept : List α} (positive : 0 < limit)
    (keeps : Keeps limit requests.dedup kept) (request : α) :
    Keeps limit (requests ++ [request]).dedup (trim limit (touch kept request)) := by
  rw [dedup_concat, touch_eq_put, touch_eq_put]
  apply keeps.put positive
  rw [List.map_id]
  exact requests.nodup_dedup

/-! ### Entries, by their keys -/

section Entries

variable {β : Type*} (key : β → α)

/-- The last entry of each key, in the order in which they came. -/
def inOrder (entries : List β) : List β :=
  entries.foldl (put key) []

variable {key}

theorem inOrder_concat (entries : List β) (entry : β) :
    inOrder key (entries ++ [entry]) = put key (inOrder key entries) entry := by
  rw [inOrder, List.foldl_concat]
  rfl

theorem map_put (order : List β) (entry : β) :
    (put key order entry).map key = touch (order.map key) (key entry) := by
  rw [put, List.map_append, touch, List.filter_map]
  rfl

theorem map_inOrder (entries : List β) :
    (inOrder key entries).map key = (entries.map key).dedup := by
  induction entries using List.reverseRecOn with
  | nil => rfl
  | append_singleton entries entry ih =>
      rw [inOrder_concat, map_put, ih, List.map_append, List.map_singleton, dedup_concat]

theorem inOrder_sublist (entries : List β) : (inOrder key entries).Sublist entries := by
  induction entries using List.reverseRecOn with
  | nil => exact List.Sublist.refl _
  | append_singleton entries entry ih =>
      rw [inOrder_concat]
      exact (List.filter_sublist.trans ih).append (List.Sublist.refl _)

/-- What came later gives what came before no place beside it. -/
theorem inOrder_append (before after : List β) :
    inOrder key (before ++ after) =
      (inOrder key before).filter (fun entry => key entry ∉ after.map key) ++
        inOrder key after := by
  induction after using List.reverseRecOn with
  | nil => simp [inOrder]
  | append_singleton after entry ih =>
      rw [← List.append_assoc, inOrder_concat, inOrder_concat, ih, put, put, List.filter_append,
        List.filter_filter, List.append_assoc]
      congr 2
      funext other
      rw [Bool.eq_iff_iff]
      simp [and_comm]

theorem LastOf.inOrder_eq {entries after : List β} {entry : β}
    (last : LastOf key entries entry after) :
    ∃ front, inOrder key entries = front ++ entry :: inOrder key after := by
  obtain ⟨⟨before, rfl⟩, fresh⟩ := last
  refine ⟨((inOrder key before).filter fun other => key other ≠ key entry).filter
    fun other => key other ∉ after.map key, ?_⟩
  rw [List.append_cons, inOrder_append, inOrder_concat, put, List.filter_append,
    List.filter_cons_of_pos (by simpa using fresh), List.filter_nil, List.append_assoc]
  rfl

theorem exists_lastOf {entries : List β} {entry : β} (member : entry ∈ inOrder key entries) :
    ∃ after, LastOf key entries entry after := by
  induction entries using List.reverseRecOn with
  | nil => cases member
  | append_singleton entries last ih =>
      rw [inOrder_concat, put, List.mem_append] at member
      rcases member with before | added
      · obtain ⟨listed, other⟩ := List.mem_filter.mp before
        obtain ⟨after, ⟨front, rfl⟩, fresh⟩ := ih listed
        refine ⟨after ++ [last], ⟨front, by rw [List.append_assoc, List.cons_append]⟩, ?_⟩
        rw [List.map_append, List.mem_append, not_or]
        refine ⟨fresh, fun same => of_decide_eq_true other ?_⟩
        exact List.mem_singleton.mp same
      · cases List.mem_singleton.mp added
        exact ⟨[], ⟨entries, rfl⟩, List.not_mem_nil⟩

theorem nodup_inOrder (entries : List β) : ((inOrder key entries).map key).Nodup := by
  rw [map_inOrder]
  exact List.nodup_dedup _

theorem length_inOrder (entries : List β) :
    (inOrder key entries).length = (entries.map key).dedup.length := by
  rw [← map_inOrder, List.length_map]

/-- An entry is at the end of the order if few keys came after it. -/
theorem mem_rtake_inOrder {entries : List β} {entry : β} {limit : Nat} :
    entry ∈ (inOrder key entries).rtake limit ↔
      ∃ after, LastOf key entries entry after ∧ (after.map key).dedup.length < limit := by
  have place {after : List β} (last : LastOf key entries entry after) :
      entry ∈ (inOrder key entries).rtake limit ↔ (after.map key).dedup.length < limit := by
    obtain ⟨front, order⟩ := last.inOrder_eq
    have once : (inOrder key entries).Nodup := (nodup_inOrder entries).of_map
    rw [order] at once
    obtain ⟨_, late, apart⟩ := List.nodup_append.mp once
    rw [order, ← length_inOrder]
    exact mem_rtake_append_cons (fun early => apart entry early entry List.mem_cons_self rfl)
      (List.nodup_cons.mp late).1 limit
  constructor
  · intro member
    obtain ⟨after, last⟩ := exists_lastOf (List.mem_of_mem_drop member)
    exact ⟨after, last, (place last).mp member⟩
  · rintro ⟨after, last, few⟩
    exact (place last).mpr few

end Entries

end Recency
