import Hermione.CourseFile
import Hermione.LanguageProducts

/-!
# Globs

A glob is read by rules: each part of it stands for some parts of a path.  The editor makes
a regular expression of it, whose pieces stand for the same where the glob has no `**`.
-/

namespace Hermione

namespace Glob

open Utf16 (LINE_FEED SLASH)

/-! ### The rules -/

/-- A part of a glob, as it is read. -/
inductive Rule where
  /-- `**/`, at the start of a segment -/
  | directories
  /-- `**`, at the end -/
  | rest
  /-- `*` -/
  | run
  /-- `?` -/
  | one
  | itself (unit : UInt16)
  deriving DecidableEq

/-- The rules of a glob; the flag tells whether a segment starts. -/
def rulesOf : Bool → Str → List Rule
  | true, '*' :: '*' :: '/' :: glob => .directories :: rulesOf true glob
  | _, ['*', '*'] => [.rest]
  | _, '*' :: glob => .run :: rulesOf false glob
  | _, '?' :: glob => .one :: rulesOf false glob
  | _, char :: glob => (Utf16.encodeChar char).map .itself ++ rulesOf (char == '/') glob
  | _, [] => []

/-- Characters within one segment. -/
def segmentUnits : Language UInt16 :=
  ({part | ∀ unit ∈ part, unit ≠ SLASH} : Set (List UInt16))

theorem mem_segmentUnits (part : List UInt16) :
    part ∈ segmentUnits ↔ ∀ unit ∈ part, unit ≠ SLASH :=
  Iff.rfl

/-- What a part stands for. -/
def Rule.language : Rule → Language UInt16
  | .directories => KStar.kstar (segmentUnits * {[SLASH]})
  | .rest => ⊤
  | .run => segmentUnits
  | .one => ({part | ∃ unit, part = [unit] ∧ unit ≠ SLASH} : Set (List UInt16))
  | .itself unit => {[unit]}

/-- The paths that a glob stands for. -/
def globLanguage (glob : Str) : Language UInt16 :=
  ((rulesOf true glob).map Rule.language).prod

theorem mem_of_mem_directories {part : List UInt16}
    (directories : part ∈ Rule.language .directories) (nonempty : part ≠ []) : SLASH ∈ part := by
  obtain ⟨parts, rfl, each⟩ := Language.mem_kstar.mp directories
  obtain ⟨unit, member⟩ := List.exists_mem_of_ne_nil _ nonempty
  obtain ⟨part, listed, -⟩ := List.mem_flatten.mp member
  obtain ⟨name, -, slash, ended, rfl⟩ := Language.mem_mul.mp (each part listed)
  cases ended
  exact List.mem_flatten.mpr ⟨_, listed, List.mem_append_right _ List.mem_cons_self⟩

/-! ### The regular expression -/

/-- What a piece matches. -/
def matchedBy : Piece → Language UInt16
  | .literal unit => {[unit]}
  | .one => ({part | ∃ unit, part = [unit] ∧ unit ≠ SLASH} : Set (List UInt16))
  | .segment => segmentUnits
  | .anything =>
      ({part | ∀ unit ∈ part, RegExp.isLineTerminator unit = false} : Set (List UInt16))

theorem mem_matchedBy_anything (part : List UInt16) :
    part ∈ matchedBy .anything ↔ ∀ unit ∈ part, RegExp.isLineTerminator unit = false :=
  Iff.rfl

theorem mem_passing (pass : UInt16 → Bool) (units rest : List UInt16) :
    rest ∈ RegExp.passing pass units ↔
      ∃ part, part ++ rest = units ∧ ∀ unit ∈ part, pass unit = true := by
  induction units with
  | nil =>
      rw [RegExp.passing, List.mem_singleton]
      constructor
      · rintro rfl
        exact ⟨[], rfl, List.forall_mem_nil _⟩
      · rintro ⟨part, whole, -⟩
        exact (List.append_eq_nil_iff.mp whole).2
  | cons unit units ih =>
      rw [RegExp.passing, List.mem_cons]
      constructor
      · rintro (rfl | later)
        · exact ⟨[], rfl, List.forall_mem_nil _⟩
        · by_cases passes : pass unit = true
          · rw [if_pos passes, ih] at later
            obtain ⟨part, rfl, all⟩ := later
            exact ⟨unit :: part, rfl, List.forall_mem_cons.mpr ⟨passes, all⟩⟩
          · rw [if_neg passes] at later
            cases later
      · rintro ⟨part, whole, all⟩
        cases part with
        | nil => exact .inl whole
        | cons first part =>
            obtain ⟨rfl, rfl⟩ := List.cons.inj whole
            obtain ⟨passes, all⟩ := List.forall_mem_cons.mp all
            rw [if_pos passes, ih]
            exact .inr ⟨part, rfl, all⟩

/-- A piece that passes over units takes some of them. -/
theorem any_passing_iff {pass : UInt16 → Bool} {taken : List UInt16 → Prop}
    (takes : ∀ part, taken part ↔ ∀ unit ∈ part, pass unit = true) {next : List UInt16 → Bool}
    {others : List UInt16 → Prop} (ih : ∀ rest, next rest = true ↔ others rest)
    (units : List UInt16) :
    (RegExp.passing pass units).any next = true ↔
      ∃ part, taken part ∧ ∃ rest, others rest ∧ part ++ rest = units := by
  rw [List.any_eq_true]
  constructor
  · rintro ⟨rest, left, later⟩
    obtain ⟨part, whole, all⟩ := (mem_passing pass units rest).mp left
    exact ⟨part, (takes part).mpr all, rest, (ih rest).mp later, whole⟩
  · rintro ⟨part, all, rest, later, whole⟩
    exact ⟨rest, (mem_passing pass units rest).mpr ⟨part, whole, (takes part).mp all⟩,
      (ih rest).mpr later⟩

/-- A piece of one unit takes the first. -/
theorem one_unit_iff {fits : UInt16 → Bool} {taken : List UInt16 → Prop}
    (takes : ∀ part, taken part ↔ ∃ unit, part = [unit] ∧ fits unit = true)
    {next : List UInt16 → Bool} {others : List UInt16 → Prop}
    (ih : ∀ rest, next rest = true ↔ others rest) (first : UInt16) (units : List UInt16) :
    (fits first && next units) = true ↔
      ∃ part, taken part ∧ ∃ rest, others rest ∧ part ++ rest = first :: units := by
  rw [Bool.and_eq_true, ih]
  constructor
  · rintro ⟨here, later⟩
    exact ⟨[first], (takes _).mpr ⟨first, rfl, here⟩, units, later, rfl⟩
  · rintro ⟨part, one, rest, later, whole⟩
    obtain ⟨unit, rfl, here⟩ := (takes part).mp one
    obtain ⟨rfl, rfl⟩ := List.cons.inj whole
    exact ⟨here, later⟩

/-- It does not match at the end. -/
theorem one_unit_end {fits : UInt16 → Bool} {taken others : List UInt16 → Prop}
    (takes : ∀ part, taken part ↔ ∃ unit, part = [unit] ∧ fits unit = true) :
    ¬ ∃ part, taken part ∧ ∃ rest, others rest ∧ part ++ rest = [] := by
  rintro ⟨part, one, rest, -, whole⟩
  obtain ⟨unit, rfl, -⟩ := (takes part).mp one
  cases whole

/-- The string matches if it is one match of each piece after the other. -/
theorem test_iff (pieces : List Piece) (units : List UInt16) :
    RegExp.test pieces units = true ↔ units ∈ (pieces.map matchedBy).prod := by
  induction pieces generalizing units with
  | nil =>
      rw [RegExp.test, List.isEmpty_iff]
      rfl
  | cons piece pieces ih =>
      rw [List.map_cons, List.prod_cons, Language.mem_mul]
      cases piece with
      | literal unit =>
          have takes (part : List UInt16) : part ∈ matchedBy (.literal unit) ↔
              ∃ first, part = [first] ∧ (first == unit) = true := by
            simp only [beq_iff_eq, exists_eq_right]
            rfl
          cases units with
          | nil => exact iff_of_false Bool.false_ne_true (one_unit_end takes)
          | cons first units => exact one_unit_iff takes ih first units
      | one =>
          have takes (part : List UInt16) : part ∈ matchedBy .one ↔
              ∃ first, part = [first] ∧ (!RegExp.isSlash first) = true := by
            simp only [Bool.not_eq_true', RegExp.isSlash, beq_eq_false_iff_ne]
            rfl
          cases units with
          | nil => exact iff_of_false Bool.false_ne_true (one_unit_end takes)
          | cons first units => exact one_unit_iff takes ih first units
      | segment =>
          refine any_passing_iff (fun part => ?_) ih units
          rw [matchedBy, mem_segmentUnits]
          simp [RegExp.isSlash, SLASH]
      | anything =>
          refine any_passing_iff (fun part => ?_) ih units
          rw [mem_matchedBy_anything]
          simp

/-! ### Globs without `**` -/

/-- The piece that a part becomes. -/
def Rule.piece : Rule → Piece
  | .directories => .anything
  | .rest => .anything
  | .run => .segment
  | .one => .one
  | .itself unit => .literal unit

/-- A part that is no `**`. -/
def Rule.Plain (rule : Rule) : Prop :=
  rule ≠ .directories ∧ rule ≠ .rest

theorem Rule.matchedBy_piece {rule : Rule} (plain : rule.Plain) :
    matchedBy rule.piece = rule.language := by
  cases rule with
  | directories => exact absurd rfl plain.1
  | rest => exact absurd rfl plain.2
  | run | one | itself => rfl

/-- Two stars, one after the other. -/
def STARS : Str := ['*', '*']

theorem globToRegExp_star {glob : Str} (alone : glob.head? ≠ some '*') :
    globToRegExp ('*' :: glob) = .segment :: globToRegExp glob := by
  rw [globToRegExp]
  · rintro rest rfl
    exact alone rfl
  · rintro rest rfl
    exact alone rfl

theorem rulesOf_star (start : Bool) {glob : Str} (alone : glob.head? ≠ some '*') :
    rulesOf start ('*' :: glob) = .run :: rulesOf false glob := by
  rw [rulesOf]
  · rintro rfl
    exact alone rfl
  · intro rest _ equal
    rw [equal] at alone
    exact alone rfl

theorem rulesOf_mark (start : Bool) (glob : Str) :
    rulesOf start ('?' :: glob) = .one :: rulesOf false glob := by
  cases start <;> rfl

theorem globToRegExp_itself {char : Char} (star : char ≠ '*') (mark : char ≠ '?') (glob : Str) :
    globToRegExp (char :: glob) =
      (Utf16.encodeChar char).map .literal ++ globToRegExp glob := by
  rw [globToRegExp]
  · intro rest same
    exact absurd same star
  · intro rest same
    exact absurd same star
  · exact star
  · exact mark

theorem rulesOf_itself (start : Bool) {char : Char} (star : char ≠ '*') (mark : char ≠ '?')
    (glob : Str) : rulesOf start (char :: glob) =
      (Utf16.encodeChar char).map .itself ++ rulesOf (char == '/') glob := by
  rw [rulesOf]
  · intro same
    exact absurd same star
  · exact star
  · exact mark
  · intro rest _ same
    exact absurd same star

/-- A part of a glob that has no `**`, nor makes one with what comes next, is read as it is
written. -/
theorem globToRegExp_append {front : Str} (tail : Str) (lone : ¬ STARS <:+: front ++ tail.take 1)
    (start : Bool) :
    globToRegExp (front ++ tail) = (rulesOf start front).map Rule.piece ++ globToRegExp tail ∧
      (∀ rule ∈ rulesOf start front, rule.Plain) ∧
      ∃ next, rulesOf start (front ++ tail) = rulesOf start front ++ rulesOf next tail := by
  induction front generalizing start with
  | nil => cases start <;> exact ⟨rfl, List.forall_mem_nil _, _, rfl⟩
  | cons char front ih =>
      rw [List.cons_append, List.infix_cons_iff, not_or] at lone
      have step := ih lone.2
      by_cases star : char = '*'
      · subst star
        obtain ⟨regexp, plain, next, rules⟩ := step false
        have alone : (front ++ tail).head? ≠ some '*' := by
          intro first
          have same : (front ++ tail.take 1).head? = (front ++ tail).head? := by
            rw [List.head?_append, List.head?_append, List.head?_take, if_neg one_ne_zero]
          obtain ⟨rest, own⟩ := List.head?_eq_some_iff.mp (same.trans first)
          rw [own] at lone
          exact lone.1 ⟨rest, rfl⟩
        have alone' : front.head? ≠ some '*' := by
          intro first
          apply alone
          rw [List.head?_append, first]
          rfl
        rw [List.cons_append, globToRegExp_star alone, rulesOf_star start alone,
          rulesOf_star start alone', regexp, rules]
        exact ⟨rfl, List.forall_mem_cons.mpr ⟨⟨nofun, nofun⟩, plain⟩, next, rfl⟩
      · by_cases mark : char = '?'
        · subst mark
          obtain ⟨regexp, plain, next, rules⟩ := step false
          rw [List.cons_append, globToRegExp, rulesOf_mark, rulesOf_mark, regexp, rules]
          exact ⟨rfl, List.forall_mem_cons.mpr ⟨⟨nofun, nofun⟩, plain⟩, next, rfl⟩
        · obtain ⟨regexp, plain, next, rules⟩ := step (char == '/')
          rw [List.cons_append, globToRegExp_itself star mark, rulesOf_itself start star mark,
            rulesOf_itself start star mark, regexp, rules]
          refine ⟨?_, ?_, next, (List.append_assoc _ _ _).symm⟩
          · rw [List.map_append, List.map_map, List.append_assoc]
            rfl
          · refine List.forall_mem_append.mpr ⟨?_, plain⟩
            intro rule member
            obtain ⟨unit, -, rfl⟩ := List.mem_map.mp member
            exact ⟨nofun, nofun⟩

theorem map_matchedBy_piece {rules : List Rule} (plain : ∀ rule ∈ rules, rule.Plain) :
    (rules.map Rule.piece).map matchedBy = rules.map Rule.language := by
  rw [List.map_map]
  exact List.map_congr_left fun rule member => Rule.matchedBy_piece (plain rule member)

/-- Without `**`, the expression matches what the glob stands for. -/
theorem test_iff_of_not_infix {glob : Str} (lone : ¬ STARS <:+: glob) (path : List UInt16) :
    RegExp.test (globToRegExp glob) path = true ↔ path ∈ globLanguage glob := by
  rw [← List.append_nil glob] at lone
  obtain ⟨regexp, plain, -⟩ := globToRegExp_append [] lone true
  have whole : globToRegExp glob = (rulesOf true glob).map Rule.piece := by
    rwa [List.append_nil, globToRegExp, List.append_nil] at regexp
  rw [test_iff, whole, map_matchedBy_piece plain, globLanguage]

/-- With `**` at the end only, it does so among paths on one line. -/
theorem test_iff_of_last {front : Str} (lone : ¬ STARS <:+: front ++ ['*']) {path : List UInt16}
    (line : ∀ unit ∈ path, RegExp.isLineTerminator unit = false) :
    RegExp.test (globToRegExp (front ++ STARS)) path = true ↔
      path ∈ globLanguage (front ++ STARS) := by
  obtain ⟨regexp, plain, next, rules⟩ := globToRegExp_append STARS lone true
  have last : globToRegExp STARS = [.anything] := rfl
  have rest : rulesOf next STARS = [.rest] := by cases next <;> rfl
  rw [test_iff, globLanguage, regexp, rules, last, rest, List.map_append, List.map_append,
    map_matchedBy_piece plain, List.prod_append, List.prod_append, List.map_singleton,
    List.map_singleton, List.prod_singleton, List.prod_singleton, Language.mem_mul,
    Language.mem_mul]
  constructor
  · rintro ⟨before, first, after, -, whole⟩
    exact ⟨before, first, after, trivial, whole⟩
  · rintro ⟨before, first, after, -, rfl⟩
    exact ⟨before, first, after, (List.forall_mem_append.mp line).2, rfl⟩

/-! ### Globs with `**` -/

theorem anything_mem {glob : Str} (stars : STARS <:+: glob) : .anything ∈ globToRegExp glob := by
  fun_induction globToRegExp glob with
  | case1 => exact List.mem_cons_self
  | case2 => exact List.mem_cons_self
  | case3 glob _ alone ih =>
      refine List.mem_cons_of_mem _ (ih ?_)
      obtain ⟨rest, whole⟩ | later := List.infix_cons_iff.mp stars
      · exact (alone rest (List.cons.inj whole).2.symm).elim
      · exact later
  | case4 glob ih =>
      refine List.mem_cons_of_mem _ (ih ?_)
      obtain ⟨rest, whole⟩ | later := List.infix_cons_iff.mp stars
      · cases whole
      · exact later
  | case5 char glob slashed starred star mark ih =>
      refine List.mem_append_right _ (ih ?_)
      obtain ⟨rest, whole⟩ | later := List.infix_cons_iff.mp stars
      · exact (star (List.cons.inj whole).1.symm).elim
      · exact later
  | case6 => cases List.infix_nil.mp stars

/-- How often a line feed is right before a slash. -/
def alternations : List UInt16 → Nat
  | [] => 0
  | unit :: units =>
      alternations units + if unit = LINE_FEED ∧ units.head? = some SLASH then 1 else 0

theorem add_le_alternations (front back : List UInt16) :
    alternations front + alternations back ≤ alternations (front ++ back) := by
  induction front with
  | nil => simp [alternations]
  | cons unit units ih =>
      rw [List.cons_append, alternations, alternations, List.head?_append]
      by_cases here : unit = LINE_FEED ∧ units.head? = some SLASH
      · rw [if_pos here, if_pos ⟨here.1, by rw [here.2, Option.some_or]⟩]
        omega
      · rw [if_neg here]
        omega

theorem alternations_inner (front part back : List UInt16) :
    alternations part ≤ alternations (front ++ part ++ back) :=
  calc alternations part
      ≤ alternations (front ++ part) :=
        le_of_add_le_right (add_le_alternations front part)
    _ ≤ alternations (front ++ part ++ back) :=
        le_of_add_le_left (add_le_alternations (front ++ part) back)

theorem alternations_cons_le (unit : UInt16) (rest : List UInt16) :
    alternations (unit :: rest) ≤ alternations rest + 1 := by
  rw [alternations]
  split <;> omega

/-- A part within a segment has no alternation, but perhaps with what follows. -/
theorem alternations_segment {part : List UInt16} (inside : ∀ unit ∈ part, unit ≠ SLASH)
    (rest : List UInt16) : alternations (part ++ rest) ≤ alternations rest + 1 := by
  induction part with
  | nil => exact Nat.le_succ _
  | cons unit part ih =>
      obtain ⟨-, inside⟩ := List.forall_mem_cons.mp inside
      cases part with
      | nil => exact alternations_cons_le unit rest
      | cons next part =>
          have apart : next ≠ SLASH := inside next List.mem_cons_self
          have longer := ih inside
          rw [List.cons_append, alternations, List.cons_append, List.head?_cons, if_neg]
          · exact longer
          · rintro ⟨-, same⟩
            exact apart (Option.some.inj same)

/-- A part on one line has none. -/
theorem alternations_line {part : List UInt16}
    (line : ∀ unit ∈ part, RegExp.isLineTerminator unit = false) (rest : List UInt16) :
    alternations (part ++ rest) ≤ alternations rest := by
  induction part with
  | nil => exact le_rfl
  | cons unit part ih =>
      obtain ⟨here, line⟩ := List.forall_mem_cons.mp line
      rw [List.cons_append, alternations, if_neg]
      · exact ih line
      · rintro ⟨rfl, -⟩
        cases here

theorem alternations_piece (piece : Piece) {part : List UInt16} (taken : part ∈ matchedBy piece)
    (rest : List UInt16) : alternations (part ++ rest) ≤ alternations rest + 1 := by
  cases piece with
  | literal unit =>
      cases taken
      exact alternations_cons_le unit rest
  | one =>
      obtain ⟨unit, rfl, -⟩ := taken
      exact alternations_cons_le unit rest
  | segment => exact alternations_segment taken rest
  | anything => exact (alternations_line taken rest).trans (Nat.le_succ _)

/-- The lines `\n/`, one after the other. -/
def alternating (n : Nat) : List UInt16 :=
  (List.replicate n [LINE_FEED, SLASH]).flatten

theorem le_alternations_alternating (n : Nat) : n ≤ alternations (alternating n) := by
  induction n with
  | zero => exact Nat.zero_le _
  | succ n ih =>
      have one : alternations [LINE_FEED, SLASH] = 1 := rfl
      have more := add_le_alternations [LINE_FEED, SLASH] (alternating n)
      rw [alternating, List.replicate_succ, List.flatten_cons]
      change n + 1 ≤ alternations ([LINE_FEED, SLASH] ++ alternating n)
      omega

theorem alternating_mem {rule : Rule} (wide : ¬ rule.Plain) (n : Nat) :
    alternating n ∈ rule.language := by
  cases rule with
  | directories =>
      rw [Rule.language, Language.mem_kstar]
      refine ⟨_, rfl, fun part member => ?_⟩
      rw [List.eq_of_mem_replicate member]
      refine Language.append_mem_mul (a := [LINE_FEED]) (b := [SLASH]) ?_ rfl
      exact List.forall_mem_singleton.mpr (by decide)
  | rest => trivial
  | run | one | itself => exact absurd ⟨nofun, nofun⟩ wide

theorem count_slash_rule {rule : Rule} (plain : rule.Plain) {part : List UInt16}
    (taken : part ∈ rule.language) (rest : List UInt16) :
    (part ++ rest).count SLASH ≤ rest.count SLASH + 1 := by
  have few : part.count SLASH ≤ 1 := by
    cases rule with
    | directories => exact absurd rfl plain.1
    | rest => exact absurd rfl plain.2
    | run =>
        rw [List.count_eq_zero_of_not_mem fun member => taken SLASH member rfl]
        exact Nat.zero_le _
    | one =>
        obtain ⟨unit, rfl, -⟩ := taken
        exact List.count_le_length
    | itself unit =>
        cases taken
        exact List.count_le_length
  rw [List.count_append]
  omega

theorem slashes_mem (n : Nat) : List.replicate n SLASH ∈ matchedBy .anything := by
  intro unit member
  rw [List.eq_of_mem_replicate member]
  rfl

theorem exists_mem_language (rule : Rule) : ∃ part, part ∈ rule.language := by
  cases rule with
  | directories => exact ⟨[], Language.nil_mem_kstar _⟩
  | rest => exact ⟨[], trivial⟩
  | run => exact ⟨[], List.forall_mem_nil _⟩
  | one => exact ⟨[LINE_FEED], LINE_FEED, rfl, by decide⟩
  | itself unit => exact ⟨[unit], rfl⟩

theorem exists_mem_matchedBy (piece : Piece) : ∃ part, part ∈ matchedBy piece := by
  cases piece with
  | literal unit => exact ⟨[unit], rfl⟩
  | one => exact ⟨[LINE_FEED], LINE_FEED, rfl, by decide⟩
  | segment => exact ⟨[], List.forall_mem_nil _⟩
  | anything => exact ⟨[], List.forall_mem_nil _⟩

/-- The expression of a glob with `**` does not match what the glob stands for: an
expression with `.*` goes through all directories, and none through lines and directories. -/
theorem exists_not_of_infix {glob : Str} (stars : STARS <:+: glob) :
    ∃ path, ¬ (RegExp.test (globToRegExp glob) path = true ↔ path ∈ globLanguage glob) := by
  have pieces : ∀ language ∈ (globToRegExp glob).map matchedBy, ∃ part, part ∈ language :=
    List.forall_mem_map.mpr fun piece _ => exists_mem_matchedBy piece
  have rules : ∀ language ∈ (rulesOf true glob).map Rule.language, ∃ part, part ∈ language :=
    List.forall_mem_map.mpr fun rule _ => exists_mem_language rule
  by_cases plain : ∀ rule ∈ rulesOf true glob, rule.Plain
  · have bounded : ∀ language ∈ (rulesOf true glob).map Rule.language, ∀ part ∈ language,
        ∀ rest, (part ++ rest).count SLASH ≤ rest.count SLASH + 1 :=
      List.forall_mem_map.mpr fun rule member part => count_slash_rule (plain rule member)
    have inner (front part back : List UInt16) :
        part.count SLASH ≤ (front ++ part ++ back).count SLASH := by
      rw [List.count_append, List.count_append]
      omega
    obtain ⟨path, mem, notMem⟩ := LanguageProducts.exists_mem_not_mem (List.count SLASH) rfl inner
      bounded pieces (List.mem_map.mpr ⟨_, anything_mem stars, rfl⟩) fun n =>
        ⟨List.replicate n SLASH, slashes_mem n, (List.count_replicate_self ..).ge⟩
    exact ⟨path, fun same => notMem (same.mp ((test_iff _ path).mpr mem))⟩
  · have bounded : ∀ language ∈ (globToRegExp glob).map matchedBy, ∀ part ∈ language,
        ∀ rest, alternations (part ++ rest) ≤ alternations rest + 1 :=
      List.forall_mem_map.mpr fun piece _ part => alternations_piece piece
    obtain ⟨rule, member, wide⟩ : ∃ rule ∈ rulesOf true glob, ¬ rule.Plain := by
      simpa using plain
    obtain ⟨path, mem, notMem⟩ := LanguageProducts.exists_mem_not_mem alternations rfl
      alternations_inner bounded rules (List.mem_map.mpr ⟨rule, member, rfl⟩) fun n =>
        ⟨alternating n, alternating_mem wide n, le_alternations_alternating n⟩
    exact ⟨path, fun same => notMem ((test_iff _ path).mp (same.mpr mem))⟩

end Glob

end Hermione
