import Mathlib.Data.List.Forall2
import Hermione.Slugs

/-!
# Slugs and their titles

A name has a slug if it has anything a slug is made of.  The title that is shown for a
slug differs from it in capitals and blanks only, and so leads back to it.
-/

namespace Hermione

/-! ### Names without a slug -/

theorem slugStep_eq_nil_iff {state : Str × Bool} {char : Char} :
    (slugStep state char).1 = [] ↔ state.1 = [] ∧ char.isAlphanum = false := by
  unfold slugStep
  by_cases letter : char.isAlphanum = true
  · simp [letter]
  · by_cases nothing : state.1 = []
    · simp [letter, nothing]
    · by_cases dash : state.2 = false <;> simp [letter, nothing, dash]

/-- Nothing is written exactly if there is nothing to write. -/
theorem slugStep_loop_eq_nil_iff {raw : Str} {state : Str × Bool} :
    (raw.foldl slugStep state).1 = [] ↔
      state.1 = [] ∧ ∀ char ∈ raw, char.isAlphanum = false := by
  induction raw generalizing state with
  | nil => simp
  | cons char raw ih =>
      rw [List.foldl_cons, ih, slugStep_eq_nil_iff, List.forall_mem_cons, and_assoc]

theorem not_isAlphanum_of_isWhitespace {char : Char} (blank : Str.isWhitespace char = true) :
    char.isAlphanum = false := by
  rw [← Bool.not_eq_true]
  intro letter
  rw [Str.isWhitespace_of_isAlphanum letter] at blank
  cases blank

/-- Trimming takes no letter. -/
theorem forall_mem_trim_iff {raw : Str} :
    (∀ char ∈ raw.trim, char.isAlphanum = false) ↔ ∀ char ∈ raw, char.isAlphanum = false := by
  have start := List.takeWhile_append_dropWhile (p := Str.isWhitespace) (l := raw)
  have stop := List.rdropWhile_append_rtakeWhile (p := Str.isWhitespace) (l := raw.trimStart)
  constructor
  · intro none
    rw [← start, ← Str.trimStart, ← stop]
    intro char member
    rcases List.mem_append.mp member with before | member
    · exact not_isAlphanum_of_isWhitespace (List.mem_takeWhile_imp before)
    · rcases List.mem_append.mp member with inside | after
      · exact none char inside
      · exact not_isAlphanum_of_isWhitespace (List.mem_rtakeWhile_imp after)
  · intro none char member
    have inside := (List.rdropWhile_prefix Str.isWhitespace raw.trimStart).subset member
    exact none char ((List.dropWhile_suffix Str.isWhitespace).subset inside)

theorem normalizeSlug_eq_none_iff {raw : Str} :
    normalizeSlug raw = none ↔ ∀ char ∈ raw, char.isAlphanum = false := by
  have nothing := @slugStep_loop_eq_nil_iff raw.trim ([], false)
  rw [and_iff_right rfl, forall_mem_trim_iff] at nothing
  have written := written_loop .nothing raw.trim
  rw [← nothing]
  unfold normalizeSlug
  generalize raw.trim.foldl slugStep ([], false) = state at written
  cases written with
  | nothing => simp [Str.trimMatches, Str.trimEndMatches]
  | @slug text form =>
      have kept := form.trimMatches_append (.inl rfl)
      rw [List.append_nil] at kept
      simp [kept, form.ne_nil]
  | @dashed text form =>
      have kept := form.trimMatches_append (.inr rfl)
      simp [kept, form.ne_nil]

/-! ### The words of a slug -/

/-- A word of a slug. -/
def IsWord (word : Str) : Prop :=
  word ≠ [] ∧ ∀ char ∈ word, isWordChar char = true

theorem IsWord.concat {word : Str} {char : Char} (isWord : IsWord word)
    (more : isWordChar char = true) : IsWord (word ++ [char]) := by
  refine ⟨by simp, fun other member => ?_⟩
  rcases List.mem_append.mp member with before | here
  · exact isWord.2 other before
  · rwa [List.mem_singleton.mp here]

/-- The words of a slug, the first and the others. -/
def joinWords (first : Str) (others : List Str) : Str :=
  first ++ others.flatMap ('-' :: ·)

/-- Every slug is words joined by dashes. -/
theorem SlugForm.exists_words {text : Str} (form : SlugForm text) :
    ∃ first others, IsWord first ∧ (∀ other ∈ others, IsWord other) ∧
      text = joinWords first others := by
  induction form with
  | @start char word =>
      exact ⟨[char], [], ⟨by simp, by simpa using word⟩, by simp, by simp [joinWords]⟩
  | @next text char form word ih =>
      obtain ⟨first, others, isWord, areWords, rfl⟩ := ih
      rcases List.eq_nil_or_concat others with rfl | ⟨front, last, rfl⟩
      · refine ⟨first ++ [char], [], isWord.concat word, areWords, ?_⟩
        simp [joinWords]
      · rw [List.concat_eq_append] at areWords ⊢
        refine ⟨first, front ++ [last ++ [char]], isWord, ?_, by simp [joinWords]⟩
        intro other member
        rcases List.mem_append.mp member with before | here
        · exact areWords other (List.mem_append_left _ before)
        · rw [List.mem_singleton.mp here]
          exact (areWords last (List.mem_append_right _ (List.mem_singleton_self _))).concat word
  | @dash text char form word ih =>
      obtain ⟨first, others, isWord, areWords, rfl⟩ := ih
      refine ⟨first, others ++ [[char]], isWord, ?_, by simp [joinWords]⟩
      intro other member
      rcases List.mem_append.mp member with before | here
      · exact areWords other before
      · rw [List.mem_singleton.mp here]
        exact ⟨by simp, by simpa using word⟩

/-! ### Titles -/

/-- The word as it stands in a title. -/
def capitalized : Str → Str
  | first :: rest => first.toUpper :: rest
  | [] => []

theorem splitOnP_joinWords {first : Str} {others : List Str} (word : IsWord first)
    (words : ∀ other ∈ others, IsWord other) :
    (joinWords first others).splitOnP (fun char => char == '-' || char == '_') =
      first :: others := by
  have whole {word : Str} (isWord : IsWord word) :
      ∀ char ∈ word, (char == '-' || char == '_') = false := by
    intro char member
    have part := isWord.2 char member
    rw [Bool.or_eq_false_iff]
    refine ⟨beq_false_of_ne (ne_dash_of_isWordChar part), beq_false_of_ne ?_⟩
    rintro rfl
    revert part
    decide
  induction others generalizing first with
  | nil =>
      rw [joinWords, List.flatMap_nil, List.append_nil, List.splitOnP_eq_singleton (whole word)]
  | cons other others ih =>
      obtain ⟨here, later⟩ := List.forall_mem_cons.mp words
      have front : joinWords first (other :: others) = first ++ '-' :: joinWords other others := by
        rw [joinWords, List.flatMap_cons, List.cons_append]
        rfl
      rw [front, List.splitOnP_append_cons_of_forall_mem (whole word) '-' (by decide),
        ih here later]

/-- The title of a slug, word by word. -/
theorem titleFromSlug_joinWords {first : Str} {others : List Str} (word : IsWord first)
    (words : ∀ other ∈ others, IsWord other) :
    titleFromSlug (joinWords first others) =
      capitalized first ++ others.flatMap (' ' :: capitalized ·) := by
  have some : (first :: others).filter (· ≠ []) = first :: others := by
    apply List.filter_eq_self.mpr
    intro other member
    apply decide_eq_true
    rcases List.mem_cons.mp member with rfl | later
    · exact word.1
    · exact (words other later).1
  rw [titleFromSlug, splitOnP_joinWords word words, some, List.map_cons, Str.intercalate_cons,
    List.flatMap_map]
  rfl

/-- A character that is normalized like another. -/
def Alike (char other : Char) : Prop :=
  ∀ state, slugStep state char = slugStep state other

theorem toUpper_of_isWordChar {char : Char} (word : isWordChar char = true) :
    char.toUpper.isAlphanum = true ∧ char.toUpper.toLower = char := by
  have small : char.toNat < 128 := by
    rw [isWordChar_iff, isLower_iff, isDigit_iff] at word
    omega
  have all : ∀ code : Fin 128, isWordChar (Char.ofNat code) = true →
      (Char.ofNat code).toUpper.isAlphanum = true ∧
        (Char.ofNat code).toUpper.toLower = Char.ofNat code := by
    decide
  have here := all ⟨char.toNat, small⟩
  rw [Char.ofNat_toNat] at here
  exact here word

/-- A capital is normalized like its small letter. -/
theorem alike_toUpper {char : Char} (word : isWordChar char = true) : Alike char.toUpper char := by
  intro state
  obtain ⟨letter, lower⟩ := toUpper_of_isWordChar word
  rw [slugStep, slugStep, if_pos letter, if_pos (isAlphanum_of_isWordChar word), lower,
    toLower_of_isWordChar word]

/-- A blank is normalized like a dash. -/
theorem alike_blank : Alike ' ' '-' :=
  fun _ => rfl

theorem alike_capitalized {word : Str} (isWord : IsWord word) :
    List.Forall₂ Alike (capitalized word) word := by
  obtain ⟨first, rest, rfl⟩ := List.exists_cons_of_ne_nil isWord.1
  refine .cons (alike_toUpper (isWord.2 first List.mem_cons_self)) ?_
  exact List.forall₂_same.mpr fun _ _ _ => rfl

theorem alike_titleFromSlug {slug : Str} (form : SlugForm slug) :
    List.Forall₂ Alike (titleFromSlug slug) slug := by
  obtain ⟨first, others, word, words, rfl⟩ := form.exists_words
  rw [titleFromSlug_joinWords word words, joinWords]
  refine List.rel_append (alike_capitalized word) ?_
  clear word form
  induction others with
  | nil => exact .nil
  | cons other others ih =>
      obtain ⟨here, later⟩ := List.forall_mem_cons.mp words
      rw [List.flatMap_cons, List.flatMap_cons]
      exact List.rel_append (.cons alike_blank (alike_capitalized here)) (ih later)

theorem foldl_slugStep_alike {text other : Str} (alike : List.Forall₂ Alike text other)
    (state : Str × Bool) : text.foldl slugStep state = other.foldl slugStep state := by
  induction alike generalizing state with
  | nil => rfl
  | cons same _ ih => rw [List.foldl_cons, List.foldl_cons, same, ih]

theorem Alike.not_isWhitespace {char other : Char} (alike : Alike char other)
    (word : isWordChar other = true) : Str.isWhitespace char = false := by
  rw [← Bool.not_eq_true]
  intro blank
  have nothing : (slugStep ([], false) char).1 = [] :=
    slugStep_eq_nil_iff.mpr ⟨rfl, not_isAlphanum_of_isWhitespace blank⟩
  rw [alike, slugStep_eq_nil_iff, isAlphanum_of_isWordChar word] at nothing
  cases nothing.2

theorem dropWhile_alike {text other : Str} (alike : List.Forall₂ Alike text other)
    (word : ∀ char ∈ other.head?, isWordChar char = true) :
    text.dropWhile Str.isWhitespace = text := by
  cases alike with
  | nil => rfl
  | cons same rest =>
      have visible := same.not_isWhitespace (word _ rfl)
      rw [List.dropWhile_cons_of_neg (Bool.eq_false_iff.mp visible)]

/-- A title begins and ends with a letter or a digit. -/
theorem trim_titleFromSlug {slug : Str} (form : SlugForm slug) :
    (titleFromSlug slug).trim = titleFromSlug slug := by
  have alike := alike_titleFromSlug form
  have first : ∀ char ∈ slug.head?, isWordChar char = true := by
    rw [List.head?_eq_some_head form.ne_nil]
    rintro _ ⟨⟩
    exact form.head _
  have last : ∀ char ∈ slug.reverse.head?, isWordChar char = true := by
    rw [List.head?_reverse, List.getLast?_eq_some_getLast form.ne_nil]
    rintro _ ⟨⟩
    exact form.last _
  rw [Str.trim, Str.trimStart, dropWhile_alike alike first, List.rdropWhile,
    dropWhile_alike (List.rel_reverse alike) last, List.reverse_reverse]

/-- The title of a slug leads back to the slug. -/
theorem normalizeSlug_titleFromSlug {slug : Str} (form : SlugForm slug) :
    normalizeSlug (titleFromSlug slug) = some slug := by
  have own := normalizeSlug_eq_self_iff.mpr form
  have same := foldl_slugStep_alike (alike_titleFromSlug form) ([], false)
  unfold normalizeSlug at own ⊢
  rw [form.trim] at own
  rwa [trim_titleFromSlug form, same]

/-- A name has no slug exactly if it has no letter and no digit; a slug has the form of
one and is its own; and the title of a slug leads back to it. -/
theorem slugs_roundTrip :
    (∀ raw, normalizeSlug raw = none ↔ ∀ char ∈ raw, char.isAlphanum = false) ∧
      (∀ raw slug, normalizeSlug raw = some slug →
        SlugForm slug ∧ normalizeSlug slug = some slug) ∧
      ∀ slug, SlugForm slug → normalizeSlug (titleFromSlug slug) = some slug := by
  refine ⟨fun _ => normalizeSlug_eq_none_iff, ?_, fun _ => normalizeSlug_titleFromSlug⟩
  intro raw slug made
  have form := slugForm_of_normalizeSlug made
  exact ⟨form, normalizeSlug_eq_self_iff.mpr form⟩

end Hermione
