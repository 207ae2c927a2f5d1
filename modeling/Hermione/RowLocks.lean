import Mathlib.Data.List.Basic

/-!
# Locked rows

A table of rows in a database that commits what it reads: a statement sees what is
committed when it begins.  A transaction locks rows one by one, waits for those that
another has locked, and passes over those that were deleted meanwhile.  It keeps
its locks to its end, and what it deleted is gone when it commits.

A row keeps its place in the table; a row that is inserted again is another row.
-/

namespace RowLocks

/-- A row, the transaction that has it locked, whether that one has deleted it, and
whether a deletion was committed. -/
structure Row (Key : Type*) where
  key : Key
  holder : Option Nat
  marked : Bool
  gone : Bool
  deriving DecidableEq

abbrev Table (Key : Type*) := List (Row Key)

variable {Key : Type*}

/-- A row that is committed. -/
def Row.fresh (key : Key) : Row Key :=
  { key, holder := none, marked := false, gone := false }

/-- A row after its transaction's end. -/
def Row.commit (txn : Nat) (row : Row Key) : Row Key :=
  if row.holder = some txn then
    { row with holder := none, marked := false, gone := row.gone || row.marked }
  else row

def Row.rollback (txn : Nat) (row : Row Key) : Row Key :=
  if row.holder = some txn then { row with holder := none, marked := false } else row

def Row.mark [DecidableEq Key] (txn : Nat) (key : Key) (row : Row Key) : Row Key :=
  if row.key = key ∧ row.holder = some txn then { row with marked := true } else row

namespace Table

variable (table : Table Key)

/-- The committed state has a row with the key. -/
def Has (key : Key) : Prop :=
  ∃ row ∈ table, row.gone = false ∧ row.key = key

/-- The places of the rows that a statement finds. -/
def snapshot (wanted : Key → Bool) : List Nat :=
  table.findIdxs fun row => !row.gone && wanted row.key

/-- The row at a place is locked, if nobody has it locked. -/
def lock (txn place : Nat) : Table Key :=
  table.modify place fun row => { row with holder := some txn }

def commit (txn : Nat) : Table Key :=
  table.map (Row.commit txn)

def rollback (txn : Nat) : Table Key :=
  table.map (Row.rollback txn)

def insert (key : Key) : Table Key :=
  table ++ [Row.fresh key]

/-- The transaction's own rows with the key are deleted, as far as others see when it
commits. -/
def mark [DecidableEq Key] (txn : Nat) (key : Key) : Table Key :=
  table.map (Row.mark txn key)

/-- The rows as everybody sees them, without their locks. -/
def contents : List (Key × Bool × Bool) :=
  table.map fun row => (row.key, row.marked, row.gone)

end Table

variable {table : Table Key} {place txn : Nat} {row : Row Key}

theorem mem_snapshot_iff {wanted : Key → Bool} :
    place ∈ table.snapshot wanted ↔
      ∃ row, table[place]? = some row ∧ row.gone = false ∧ wanted row.key = true := by
  rw [Table.snapshot, List.mem_findIdxs_iff_exists_getElem_pos]
  constructor
  · rintro ⟨within, found⟩
    rw [Bool.and_eq_true, Bool.not_eq_true'] at found
    exact ⟨_, List.getElem?_eq_getElem within, found⟩
  · rintro ⟨row, found, here⟩
    obtain ⟨within, rfl⟩ := List.getElem?_eq_some_iff.mp found
    exact ⟨within, by simpa using here⟩

/-! ### What an operation of a transaction leaves alone -/

/-- The keys of all rows, and the rows that other transactions have locked. -/
structure Undisturbed (txn : Nat) (table later : Table Key) : Prop where
  keys : ∀ (place : Nat) (row : Row Key), table[place]? = some row →
    ∃ row', later[place]? = some row' ∧ row'.key = row.key
  held : ∀ (place : Nat) (row : Row Key) (other : Nat), table[place]? = some row →
    row.holder = some other → other ≠ txn → later[place]? = some row

theorem undisturbed_map {change : Row Key → Row Key}
    (keys : ∀ row, (change row).key = row.key)
    (others : ∀ row other, row.holder = some other → other ≠ txn → change row = row) :
    Undisturbed txn table (table.map change) := by
  constructor
  · intro place row found
    exact ⟨change row, by rw [List.getElem?_map, found, Option.map_some], keys row⟩
  · intro place row other found holder different
    rw [List.getElem?_map, found, Option.map_some, others row other holder different]

theorem undisturbed_commit : Undisturbed txn table (table.commit txn) := by
  apply undisturbed_map
  · intro row
    unfold Row.commit
    split <;> rfl
  · intro row other holder different
    have free : row.holder ≠ some txn := by simpa [holder] using different
    exact if_neg free

theorem undisturbed_rollback : Undisturbed txn table (table.rollback txn) := by
  apply undisturbed_map
  · intro row
    unfold Row.rollback
    split <;> rfl
  · intro row other holder different
    have free : row.holder ≠ some txn := by simpa [holder] using different
    exact if_neg free

theorem undisturbed_mark [DecidableEq Key] {key : Key} :
    Undisturbed txn table (table.mark txn key) := by
  apply undisturbed_map
  · intro row
    unfold Row.mark
    split <;> rfl
  · intro row other holder different
    have free : row.holder ≠ some txn := by simpa [holder] using different
    exact if_neg fun mine => free mine.2

theorem undisturbed_lock (found : table[place]? = some row) (free : row.holder = none) :
    Undisturbed txn table (table.lock txn place) := by
  constructor
  · intro other row' there
    rw [Table.lock, List.getElem?_modify, there]
    by_cases here : place = other
    · exact ⟨{ row' with holder := some txn }, by simp [here], rfl⟩
    · exact ⟨row', by simp [here], rfl⟩
  · intro other row' owner there holder _
    rw [Table.lock, List.getElem?_modify, there]
    have elsewhere : place ≠ other := by
      rintro rfl
      cases found.symm.trans there
      rw [free] at holder
      cases holder
    simp [elsewhere]

theorem undisturbed_insert {key : Key} : Undisturbed txn table (table.insert key) := by
  constructor
  · intro place row found
    have within := (List.getElem?_eq_some_iff.mp found).1
    exact ⟨row, by rw [Table.insert, List.getElem?_append_left within, found], rfl⟩
  · intro place row other found _ _
    have within := (List.getElem?_eq_some_iff.mp found).1
    rw [Table.insert, List.getElem?_append_left within, found]

/-! ### What stays -/

/-- Every row was there before, and none was brought back. -/
def Traced (table later : Table Key) : Prop :=
  ∀ (place : Nat) (row : Row Key), later[place]? = some row → row.gone = false →
    ∃ before, table[place]? = some before ∧ before.gone = false ∧ before.key = row.key

theorem traced_map {change : Row Key → Row Key} (keys : ∀ row, (change row).key = row.key)
    (gone : ∀ row, row.gone = true → (change row).gone = true) :
    Traced table (table.map change) := by
  intro place row found there
  rw [List.getElem?_map, Option.map_eq_some_iff] at found
  obtain ⟨before, was, rfl⟩ := found
  refine ⟨before, was, ?_, (keys before).symm⟩
  rw [← Bool.not_eq_true]
  intro dead
  rw [gone before dead] at there
  cases there

theorem traced_commit : Traced table (table.commit txn) := by
  apply traced_map
  · intro row
    unfold Row.commit
    split <;> rfl
  · intro row dead
    unfold Row.commit
    split <;> simp [dead]

theorem traced_rollback : Traced table (table.rollback txn) := by
  apply traced_map
  · intro row
    unfold Row.rollback
    split <;> rfl
  · intro row dead
    unfold Row.rollback
    split <;> exact dead

theorem traced_mark [DecidableEq Key] {key : Key} : Traced table (table.mark txn key) := by
  apply traced_map
  · intro row
    unfold Row.mark
    split <;> rfl
  · intro row dead
    unfold Row.mark
    split <;> exact dead

theorem traced_lock : Traced table (table.lock txn place) := by
  intro other row found there
  rw [Table.lock, List.getElem?_modify] at found
  obtain ⟨before, was, rfl⟩ := Option.map_eq_some_iff.mp found
  refine ⟨before, was, ?_⟩
  split at there <;> simp_all

/-- No two rows that are there have one key. -/
def Unique (table : Table Key) : Prop :=
  ∀ (place other : Nat) (row row' : Row Key), table[place]? = some row →
    table[other]? = some row' → row.gone = false → row'.gone = false → row.key = row'.key →
    place = other

theorem Unique.traced {later : Table Key} (unique : Unique table)
    (traced : Traced table later) : Unique later := by
  intro place other row row' found found' there there' same
  obtain ⟨before, was, kept, key⟩ := traced place row found there
  obtain ⟨before', was', kept', key'⟩ := traced other row' found' there'
  apply unique place other before before' was was' kept kept'
  rw [key, key', same]

theorem Unique.insert {key : Key} (unique : Unique table) (absent : ¬ table.Has key) :
    Unique (table.insert key) := by
  have old : ∀ (place : Nat) (row : Row Key), (table.insert key)[place]? = some row →
      table[place]? = some row ∨ (place = table.length ∧ row = Row.fresh key) := by
    intro place row found
    rw [Table.insert, List.getElem?_append] at found
    split at found
    · exact .inl found
    · right
      rw [List.getElem?_singleton] at found
      split at found
      · exact ⟨by omega, (Option.some.inj found).symm⟩
      · cases found
  have fresh : ∀ (place : Nat) (row : Row Key), table[place]? = some row → row.gone = false →
      row.key ≠ key :=
    fun place row found there same => absent ⟨row, List.mem_of_getElem? found, there, same⟩
  intro place other row row' found found' there there' same
  obtain was | ⟨rfl, rfl⟩ := old place row found
  · obtain was' | ⟨rfl, rfl⟩ := old other row' found'
    · exact unique place other row row' was was' there there' same
    · exact absurd same (fresh place row was there)
  · obtain was' | ⟨rfl, rfl⟩ := old other row' found'
    · exact absurd same.symm (fresh other row' was' there')
    · rfl

theorem Undisturbed.refl : Undisturbed txn table table where
  keys _ row found := ⟨row, found, rfl⟩
  held _ _ _ found _ _ := found

end RowLocks
