import Hermione.RustStrings

/-!
# Slugs

Courses and exercises go by slugs: words of lower-case letters and digits, joined
by single dashes.  Server and recorder make them of names in the same way.
-/

namespace Hermione

/-- `char::is_ascii_lowercase` or `char::is_ascii_digit`: what a word is made of. -/
def isWordChar (char : Char) : Bool :=
  char.isLower || char.isDigit

/-- A name is gone through from the left; `prevDash` tells that a dash was the
last thing written. -/
def slugStep (state : Str × Bool) (ch : Char) : Str × Bool :=
  let (out, prevDash) := state
  if ch.isAlphanum then (out ++ [ch.toLower], false)
  else if out ≠ [] ∧ prevDash = false then (out ++ ['-'], true)
  else (out, prevDash)

/-- `str::trim_matches` for one character. -/
def Str.trimMatches (char : Char) (text : Str) : Str :=
  Str.trimEndMatches char (text.dropWhile (· == char))

/-- Normalizes a slug to a URL-safe form, collapsing runs of other characters
into single dashes.  `none` if nothing usable remains. -/
def normalizeSlug (raw : Str) : Option Str :=
  let (out, _) := raw.trim.foldl slugStep ([], false)
  let slug := Str.trimMatches '-' out
  if slug ≠ [] then some slug else none

/-- Turns a slug into a human-friendly title. -/
def titleFromSlug (slug : Str) : Str :=
  let words := (slug.splitOnP fun char => char == '-' || char == '_').filter (· ≠ [])
  [' '].intercalate (words.map fun word =>
    match word with
    | first :: rest => first.toUpper :: rest
    | [] => [])

/-- The form of a slug.  Each further character of a word comes next to the one
before it, or after a dash. -/
inductive SlugForm : Str → Prop where
  | start {char : Char} (word : isWordChar char = true) : SlugForm [char]
  | next {text : Str} {char : Char} (form : SlugForm text) (word : isWordChar char = true) :
      SlugForm (text ++ [char])
  | dash {text : Str} {char : Char} (form : SlugForm text) (word : isWordChar char = true) :
      SlugForm (text ++ ['-', char])

section Characters

variable {char : Char}

theorem isWordChar_iff : isWordChar char = true ↔ char.isLower = true ∨ char.isDigit = true := by
  rw [isWordChar, Bool.or_eq_true]

theorem isAlphanum_of_isWordChar (word : isWordChar char = true) : char.isAlphanum = true := by
  rw [isWordChar_iff] at word
  rw [isAlphanum_iff]
  tauto

theorem toLower_of_isWordChar (word : isWordChar char = true) : char.toLower = char := by
  apply toLower_of_not_isUpper
  rw [isWordChar_iff, isLower_iff, isDigit_iff] at word
  rw [isUpper_iff]
  omega

theorem isWordChar_toLower (letter : char.isAlphanum = true) :
    isWordChar char.toLower = true := by
  by_cases capital : char.isUpper = true
  · have code := toNat_toLower capital
    rw [isUpper_iff] at capital
    rw [isWordChar_iff, isLower_iff]
    omega
  · rw [toLower_of_not_isUpper capital, isWordChar_iff]
    rw [isAlphanum_iff] at letter
    tauto

theorem not_isWhitespace_of_isWordChar (word : isWordChar char = true) :
    Str.isWhitespace char = false :=
  Str.isWhitespace_of_isAlphanum (isAlphanum_of_isWordChar word)

theorem ne_dash_of_isWordChar (word : isWordChar char = true) : char ≠ '-' := by
  rintro rfl
  revert word
  decide

end Characters

/-! ### The form -/

namespace SlugForm

variable {text : Str}

theorem ne_nil (form : SlugForm text) : text ≠ [] := by
  cases form <;> simp

/-- A slug begins with a word, ... -/
theorem head (form : SlugForm text) (some : text ≠ []) : isWordChar (text.head some) = true := by
  induction form with
  | start word => exact word
  | next form _ ih => simpa [form.ne_nil] using ih form.ne_nil
  | dash form _ ih => simpa [form.ne_nil] using ih form.ne_nil

/-- ... ends with one, ... -/
theorem last (form : SlugForm text) (some : text ≠ []) : isWordChar (text.getLast some) = true := by
  cases form with
  | start word => exact word
  | next _ word => simpa using word
  | dash _ word => simpa using word

/-- ... and so is left alone by a trim of what words do not contain. -/
theorem dropWhile_append (form : SlugForm text) (rest : Str) {drop : Char → Bool}
    (words : ∀ char, isWordChar char = true → drop char = false) :
    (text ++ rest).dropWhile drop = text ++ rest := by
  obtain ⟨first, more, rfl⟩ := List.exists_cons_of_ne_nil form.ne_nil
  have word : isWordChar first = true := form.head (List.cons_ne_nil _ _)
  rw [List.cons_append, List.dropWhile_cons_of_neg]
  rw [words first word]
  decide

theorem rdropWhile (form : SlugForm text) {drop : Char → Bool}
    (words : ∀ char, isWordChar char = true → drop char = false) :
    text.rdropWhile drop = text := by
  apply List.rdropWhile_eq_self_iff.mpr
  intro some
  rw [words _ (form.last some)]
  decide

theorem trim (form : SlugForm text) : Str.trim text = text := by
  have words : ∀ char, isWordChar char = true → Str.isWhitespace char = false :=
    fun _ => not_isWhitespace_of_isWordChar
  have starts := form.dropWhile_append [] words
  rw [List.append_nil] at starts
  rw [Str.trim, Str.trimStart, starts, form.rdropWhile words]

theorem trimMatches_append (form : SlugForm text) {rest : Str} (dashes : rest = [] ∨ rest = ['-']) :
    Str.trimMatches '-' (text ++ rest) = text := by
  have words : ∀ char, isWordChar char = true → (char == '-') = false :=
    fun _ word => beq_false_of_ne (ne_dash_of_isWordChar word)
  rw [Str.trimMatches, form.dropWhile_append rest words, Str.trimEndMatches]
  rcases dashes with rfl | rfl
  · rw [List.append_nil, form.rdropWhile words]
  · rw [List.rdropWhile_concat_pos _ _ _ (by decide), form.rdropWhile words]

end SlugForm

/-! ### Normalizing -/

/-- What has been written of a slug: nothing, or a slug with or without a dash
to follow it. -/
inductive Written : Str × Bool → Prop where
  | nothing : Written ([], false)
  | slug {text : Str} (form : SlugForm text) : Written (text, false)
  | dashed {text : Str} (form : SlugForm text) : Written (text ++ ['-'], true)

theorem written_slugStep {state : Str × Bool} (written : Written state) (char : Char) :
    Written (slugStep state char) := by
  by_cases letter : char.isAlphanum = true
  · have word := isWordChar_toLower letter
    cases written with
    | nothing => simpa [slugStep, letter] using .slug (.start word)
    | slug form => simpa [slugStep, letter] using .slug (form.next word)
    | dashed form => simpa [slugStep, letter] using .slug (form.dash word)
  · cases written with
    | nothing => simpa [slugStep, letter] using .nothing
    | slug form => simpa [slugStep, letter, form.ne_nil] using .dashed form
    | dashed form => simpa [slugStep, letter] using .dashed form

theorem written_loop {state : Str × Bool} (written : Written state) (raw : Str) :
    Written (raw.foldl slugStep state) := by
  induction raw generalizing state with
  | nil => exact written
  | cons char raw ih => exact ih (written_slugStep written char)

/-- What comes of normalizing has the form of a slug. -/
theorem slugForm_of_normalizeSlug {raw slug : Str} (made : normalizeSlug raw = some slug) :
    SlugForm slug := by
  unfold normalizeSlug at made
  have written := written_loop .nothing raw.trim
  revert made
  cases loop : raw.trim.foldl slugStep ([], false) with
  | mk out prevDash =>
      rw [loop] at written
      dsimp only
      intro made
      cases written with
      | nothing => cases made
      | slug form =>
          rw [← List.append_nil out, form.trimMatches_append (.inl rfl), if_pos form.ne_nil] at made
          cases made
          exact form
      | @dashed text form =>
          rw [form.trimMatches_append (.inr rfl), if_pos form.ne_nil] at made
          cases made
          exact form

theorem slugStep_loop {text : Str} (form : SlugForm text) :
    text.foldl slugStep ([], false) = (text, false) := by
  induction form with
  | start word =>
      simp [slugStep, isAlphanum_of_isWordChar word, toLower_of_isWordChar word]
  | next form word ih =>
      rw [List.foldl_append, ih]
      simp [slugStep, isAlphanum_of_isWordChar word, toLower_of_isWordChar word]
  | dash form word ih =>
      have apart : Char.isAlphanum '-' = false := by decide
      rw [List.foldl_append, ih]
      simp [slugStep, form.ne_nil, apart, isAlphanum_of_isWordChar word,
        toLower_of_isWordChar word]

/-- Normalizing keeps exactly the texts of that form. -/
theorem normalizeSlug_eq_self_iff {text : Str} :
    normalizeSlug text = some text ↔ SlugForm text := by
  constructor
  · exact slugForm_of_normalizeSlug
  · intro form
    have trimmed := form.trimMatches_append (.inl rfl)
    rw [List.append_nil] at trimmed
    simp only [normalizeSlug, form.trim, slugStep_loop form, trimmed, ne_eq, form.ne_nil,
      not_false_eq_true, if_true]

end Hermione
