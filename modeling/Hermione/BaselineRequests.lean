import Hermione.BaselineLoads
import Hermione.Recency

/-!
# What the cache of baselines answers

A cache of any limit is asked for one file after the other.  Whatever it keeps was loaded
for an earlier request of the same file at the same commit, and it keeps the files that
were last requested at some commit: nothing is kept of a request without one.
-/

namespace Hermione

namespace Editor

/-- One call of `get`: when it is made, when git would say what the commit has, and when
that has arrived. -/
structure Request where
  file : JsString
  commit : Option JsString
  asked : Int
  loaded : Int
  answered : Int

/-- No request is made before the one before it is answered. -/
structure OneByOne (requests : List Request) : Prop where
  timely : ∀ request ∈ requests, request.asked ≤ request.loaded ∧
    request.loaded ≤ request.answered
  apart : requests.Pairwise fun first second => first.answered ≤ second.asked

/-- A commit's file may only turn up, and stays as it is then. -/
def OnlyAppears (loading : Int → JsString → Option JsString → Option JsString) : Prop :=
  ∀ file commit earlier later text, earlier ≤ later →
    loading earlier file commit = some text → loading later file commit = some text

namespace BaselineCache

/-- `get`, of a cache of any limit. -/
def getWithin (limit : Nat) (cache : BaselineCache) (asked answered : Int) (file : JsString)
    (commit load : Option JsString) : Option JsString × BaselineCache :=
  match commit with
  | none => (load, cache)
  | some commit =>
      match cache.hit asked file commit with
      | some hit => (hit.committed, cache.set file hit)
      | none =>
          (load,
            Recency.trim limit (cache.set file { commit, committed := load, time := answered }))

/-- The editor's own cache has the limit of the source. -/
theorem get_eq_getWithin (cache : BaselineCache) (asked answered : Int) (file : JsString)
    (commit load : Option JsString) : cache.get asked answered file commit load =
      cache.getWithin CACHE_LIMIT asked answered file commit load :=
  rfl

theorem map_set (cache : BaselineCache) (file : JsString) (entry : Entry) :
    (cache.set file entry).map Prod.fst = Recency.touch (cache.map Prod.fst) file := by
  rw [set, delete, List.map_append, Recency.touch, List.filter_map]
  rfl

theorem map_trim (limit : Nat) (cache : BaselineCache) :
    (Recency.trim limit cache).map Prod.fst = Recency.trim limit (cache.map Prod.fst) := by
  unfold Recency.trim
  rw [List.length_map]
  split
  · exact List.map_tail
  · rfl

theorem mem_set {cache : BaselineCache} {file other : JsString} {entry kept : Entry}
    (member : (other, kept) ∈ cache.set file entry) :
    (other, kept) ∈ cache ∨ other = file ∧ kept = entry := by
  rcases List.mem_append.mp member with before | added
  · exact .inl (List.mem_filter.mp before).1
  · cases List.mem_singleton.mp added
    exact .inr ⟨rfl, rfl⟩

theorem mem_of_mem_trim {limit : Nat} {cache : BaselineCache} {entry : JsString × Entry}
    (member : entry ∈ Recency.trim limit cache) : entry ∈ cache := by
  unfold Recency.trim at member
  split at member
  · exact List.mem_of_mem_tail member
  · exact member

end BaselineCache

namespace Requests

variable (limit : Nat) (loading : Int → JsString → Option JsString → Option JsString)

def request (cache : BaselineCache) (made : Request) : Option JsString × BaselineCache :=
  cache.getWithin limit made.asked made.answered made.file made.commit
    (loading made.loaded made.file made.commit)

/-- What is kept after some requests, beginning with nothing. -/
def after (requests : List Request) : BaselineCache :=
  requests.foldl (fun cache made => (request limit loading cache made).2) []

/-- The cache does not know the answer. -/
def Loads (cache : BaselineCache) (made : Request) : Prop :=
  ∀ commit, made.commit = some commit → cache.hit made.asked made.file commit = none

/-- The earlier request loaded, and had nothing. -/
structure FoundNothing (before : List Request) (earlier made : Request) : Prop where
  file : earlier.file = made.file
  commit : earlier.commit = made.commit
  loads : ∃ front back, before = front ++ earlier :: back ∧
    Loads (after limit loading front) earlier
  nothing : loading earlier.loaded made.file made.commit = none

/-- The answer is what loading would return, but nothing may be answered again for less than
ten seconds. -/
def Transparent (before : List Request) (made : Request) : Prop :=
  (request limit loading (after limit loading before) made).1 =
    loading made.loaded made.file made.commit ∨
  (request limit loading (after limit loading before) made).1 = none ∧
    ∃ earlier, FoundNothing limit loading before earlier made ∧
      made.asked < earlier.answered + 10000

/-- The files requested at some commit. -/
def requested (requests : List Request) : List JsString :=
  (requests.filter fun made => made.commit.isSome).map Request.file

/-- Where a kept entry comes from. -/
def Loaded (before : List Request) (file : JsString) (entry : Entry) : Prop :=
  ∃ front earlier back, before = front ++ earlier :: back ∧
    earlier.file = file ∧ earlier.commit = some entry.commit ∧
    Loads (after limit loading front) earlier ∧
    entry.committed = loading earlier.loaded file (some entry.commit) ∧
    entry.time = earlier.answered

variable {limit : Nat} {loading : Int → JsString → Option JsString → Option JsString}

theorem after_concat (before : List Request) (made : Request) :
    after limit loading (before ++ [made]) =
      (request limit loading (after limit loading before) made).2 := by
  rw [after, List.foldl_append]
  rfl

/-- What a request answers and leaves behind. -/
theorem request_cases (cache : BaselineCache) (made : Request) :
    (made.commit = none ∧
      request limit loading cache made = (loading made.loaded made.file made.commit, cache)) ∨
    (∃ commit hit, made.commit = some commit ∧
      cache.hit made.asked made.file commit = some hit ∧
      request limit loading cache made = (hit.committed, cache.set made.file hit)) ∨
    (∃ commit, made.commit = some commit ∧ cache.hit made.asked made.file commit = none ∧
      request limit loading cache made =
        (loading made.loaded made.file (some commit),
          Recency.trim limit (cache.set made.file
            { commit, committed := loading made.loaded made.file (some commit),
              time := made.answered }))) := by
  unfold request BaselineCache.getWithin
  cases own : made.commit with
  | none => exact .inl ⟨rfl, rfl⟩
  | some commit =>
      dsimp only
      cases known : cache.hit made.asked made.file commit with
      | some hit => exact .inr (.inl ⟨commit, hit, rfl, known, rfl⟩)
      | none => exact .inr (.inr ⟨commit, rfl, known, rfl⟩)

theorem Loaded.later {before : List Request} {file : JsString} {entry : Entry}
    (loaded : Loaded limit loading before file entry) (made : Request) :
    Loaded limit loading (before ++ [made]) file entry := by
  obtain ⟨front, earlier, back, rfl, rest⟩ := loaded
  exact ⟨front, earlier, back ++ [made], by simp, rest⟩

/-- A hit is an entry that is kept of the file, at the commit, and still believed. -/
theorem hit_spec {cache : BaselineCache} {now : Int} {file commit : JsString} {hit : Entry}
    (known : cache.hit now file commit = some hit) :
    (file, hit) ∈ cache ∧ hit.commit = commit ∧ BaselineCache.believed now hit = true := by
  obtain ⟨found, good⟩ := Option.filter_eq_some_iff.mp known
  rw [decide_eq_true_eq] at good
  exact ⟨mem_of_lookup found, good⟩

/-- Whatever is kept was loaded for an earlier request. -/
theorem loaded_of_mem (requests : List Request) : ∀ file entry,
    (file, entry) ∈ after limit loading requests → Loaded limit loading requests file entry := by
  induction requests using List.reverseRecOn with
  | nil => exact fun _ _ member => absurd member List.not_mem_nil
  | append_singleton before made ih =>
      intro file entry member
      rw [after_concat] at member
      rcases @request_cases limit loading (after limit loading before) made with
        ⟨-, made_eq⟩ | ⟨commit, hit, own, known, made_eq⟩ | ⟨commit, own, unknown, made_eq⟩
      · rw [made_eq] at member
        exact (ih file entry member).later made
      · rw [made_eq] at member
        obtain ⟨kept, -, -⟩ := hit_spec known
        rcases BaselineCache.mem_set member with before' | ⟨rfl, rfl⟩
        · exact (ih file entry before').later made
        · exact (ih _ _ kept).later made
      · rw [made_eq] at member
        rcases BaselineCache.mem_set (BaselineCache.mem_of_mem_trim member) with
          before' | ⟨rfl, rfl⟩
        · exact (ih file entry before').later made
        · refine ⟨before, made, [], rfl, rfl, own, ?_, rfl, rfl⟩
          intro other same
          rw [own] at same
          cases same
          exact unknown

/-- What is kept, by its files, is the end of those requested. -/
theorem keeps (positive : 0 < limit) (requests : List Request) :
    Recency.Keeps limit (requested requests).dedup
      ((after limit loading requests).map Prod.fst) := by
  induction requests using List.reverseRecOn with
  | nil => exact Recency.keeps_nil limit
  | append_singleton before made ih =>
      rw [after_concat, requested, List.filter_append, List.map_append, ← requested]
      rcases @request_cases limit loading (after limit loading before) made with
        ⟨own, made_eq⟩ | ⟨commit, hit, own, known, made_eq⟩ | ⟨commit, own, unknown, made_eq⟩
      · rw [made_eq, List.filter_cons_of_neg (by simp [own]), List.filter_nil, List.map_nil,
          List.append_nil]
        exact ih
      · have there : made.file ∈ (after limit loading before).map Prod.fst :=
          List.mem_map_of_mem (hit_spec known).1
        have stays := ih.dedup positive made.file
        have long := Recency.length_touch_of_mem
          (ih.ends.sublist.nodup (requested before).nodup_dedup) there
        have within := ih.within
        rw [Recency.trim, if_neg (by omega)] at stays
        rw [made_eq, List.filter_cons_of_pos (by simp [own]), List.filter_nil,
          BaselineCache.map_set]
        exact stays
      · rw [made_eq, List.filter_cons_of_pos (by simp [own]), List.filter_nil,
          BaselineCache.map_trim, BaselineCache.map_set]
        exact ih.dedup positive made.file

theorem transparent (appears : OnlyAppears loading) {before : List Request} {made : Request}
    (apart : OneByOne (before ++ [made])) : Transparent limit loading before made := by
  unfold Transparent
  rcases @request_cases limit loading (after limit loading before) made with
    ⟨own, made_eq⟩ | ⟨commit, hit, own, known, made_eq⟩ | ⟨commit, own, unknown, made_eq⟩
  · left
    rw [made_eq]
  · obtain ⟨kept, rfl, believed⟩ := hit_spec known
    obtain ⟨front, earlier, back, rfl, file, commit, loads, committed, time⟩ :=
      loaded_of_mem before _ _ kept
    have listed : earlier ∈ front ++ earlier :: back :=
      List.mem_append_right _ List.mem_cons_self
    have timely := (apart.timely earlier (List.mem_append_left _ listed)).2
    have asked := (List.pairwise_append.mp apart.apart).2.2 earlier listed made
      List.mem_cons_self
    have loaded := (apart.timely made (List.mem_append_right _ List.mem_cons_self)).1
    rw [made_eq, own]
    dsimp only
    cases answer : hit.committed with
    | some text =>
        left
        rw [answer] at committed
        exact (appears made.file _ earlier.loaded made.loaded text (by omega)
          committed.symm).symm
    | none =>
        right
        rw [answer] at committed
        refine ⟨rfl, earlier, ⟨file, commit.trans own.symm, ⟨front, back, rfl, loads⟩, ?_⟩, ?_⟩
        · rw [own]
          exact committed.symm
        · rw [BaselineCache.believed, answer, Option.isSome_none, Bool.false_or,
            decide_eq_true_eq, time] at believed
          unfold ABSENT_TTL_MS at believed
          omega
  · left
    rw [made_eq, own]

/-- Asked for one file after the other, the cache answers what loading would, except that
nothing may be answered again for less than ten seconds; it never keeps more files than its
limit, and keeps those that were last requested at some commit. -/
theorem baselines_transparent (positive : 0 < limit) (appears : OnlyAppears loading)
    {requests : List Request} (apart : OneByOne requests) :
    (∀ before made later, requests = before ++ made :: later →
      Transparent limit loading before made ∧
      (after limit loading before).length ≤ limit ∧
      (after limit loading before).map Prod.fst = (requested before).dedup.rtake limit) ∧
    (after limit loading requests).length ≤ limit ∧
    (after limit loading requests).map Prod.fst = (requested requests).dedup.rtake limit := by
  have short (some : List Request) : (after limit loading some).length ≤ limit := by
    have within := (@keeps limit loading positive some).within
    rwa [List.length_map] at within
  refine ⟨?_, short requests, (keeps positive requests).eq_rtake⟩
  rintro before made later rfl
  have front : OneByOne (before ++ [made]) := by
    have whole : before ++ made :: later = (before ++ [made]) ++ later := by simp
    rw [whole] at apart
    exact ⟨fun one listed => apart.timely one (List.mem_append_left _ listed),
      (List.pairwise_append.mp apart.apart).1⟩
  exact ⟨transparent appears front, short before, (keeps positive before).eq_rtake⟩

/-- A file that is committed later on: nothing is found at first, and nothing is answered
from what is kept. -/
theorem baselines_transparent_appearing :
    Transparent 1 (fun now _ _ => if 5 ≤ now then some (js "text") else none)
      [⟨js "a", some (js "c"), 0, 1, 2⟩] ⟨js "a", some (js "c"), 6, 7, 8⟩ := by
  have appears : OnlyAppears fun now _ _ => if 5 ≤ now then some (js "text") else none := by
    intro file commit earlier later text after' found
    dsimp only at found ⊢
    split at found
    · rw [if_pos (by omega), ← found]
    · cases found
  have apart : OneByOne [⟨js "a", some (js "c"), 0, 1, 2⟩, ⟨js "a", some (js "c"), 6, 7, 8⟩] :=
    ⟨by simp, List.pairwise_pair.mpr (by decide)⟩
  exact ((baselines_transparent (by decide) appears apart).1 [_] _ [] rfl).1

/-- A request without a commit leaves nothing: the file that was requested before is kept. -/
theorem not_last_requested :
    ¬ ∀ limit loading requests, 0 < limit → OnlyAppears loading → OneByOne requests →
      (after limit loading requests).map Prod.fst =
        (requests.map Request.file).dedup.rtake limit := by
  intro law
  have appears : OnlyAppears fun _ _ _ => none := nofun
  have apart : OneByOne [⟨js "a", some (js "c"), 0, 0, 0⟩, ⟨js "b", none, 1, 1, 1⟩] :=
    ⟨by simp, List.pairwise_pair.mpr (by decide)⟩
  have kept := law 1 _ _ (by decide) appears apart
  revert kept
  decide

end Requests

end Editor

end Hermione
