import Mathlib.Data.List.DropRight
import Hermione.Utf8Offsets

/-!
# Strings of the standard library

A `String` or `&str` of the server is its list of Unicode scalar values.  The
functions here are the standard library's, under its names; lengths and
offsets are in bytes, as there.
-/

namespace Hermione

/-- A string, as its list of Unicode scalar values. -/
abbrev Str := List Char

instance : LawfulBEq Str :=
  inferInstance

/-! ### Letters and digits by their codes -/

section Codes

variable {char : Char}

theorem isUpper_iff : char.isUpper = true ↔ 65 ≤ char.toNat ∧ char.toNat ≤ 90 := by
  change decide (char.val ≥ 'A'.val ∧ char.val ≤ 'Z'.val) = true ↔ _
  rw [decide_eq_true_eq]
  exact and_congr UInt32.le_iff_toNat_le UInt32.le_iff_toNat_le

theorem isLower_iff : char.isLower = true ↔ 97 ≤ char.toNat ∧ char.toNat ≤ 122 := by
  change (decide (char.val ≥ 'a'.val) && decide (char.val ≤ 'z'.val)) = true ↔ _
  rw [Bool.and_eq_true, decide_eq_true_eq, decide_eq_true_eq]
  exact and_congr UInt32.le_iff_toNat_le UInt32.le_iff_toNat_le

theorem isDigit_iff : char.isDigit = true ↔ 48 ≤ char.toNat ∧ char.toNat ≤ 57 := by
  change (decide (char.val ≥ '0'.val) && decide (char.val ≤ '9'.val)) = true ↔ _
  rw [Bool.and_eq_true, decide_eq_true_eq, decide_eq_true_eq]
  exact and_congr UInt32.le_iff_toNat_le UInt32.le_iff_toNat_le

theorem isAlphanum_iff : char.isAlphanum = true ↔
    (char.isUpper = true ∨ char.isLower = true) ∨ char.isDigit = true := by
  change ((char.isUpper || char.isLower) || char.isDigit) = true ↔ _
  rw [Bool.or_eq_true, Bool.or_eq_true]

theorem toLower_of_not_isUpper (small : ¬char.isUpper = true) : char.toLower = char := by
  refine dif_neg fun capital => small ?_
  exact decide_eq_true capital

theorem toNat_toLower (capital : char.isUpper = true) : char.toLower.toNat = char.toNat + 32 := by
  have lower : char.toLower = ⟨char.val + ('a'.val - 'A'.val), _⟩ :=
    dif_pos (of_decide_eq_true capital)
  have codes := isUpper_iff.mp capital
  rw [lower]
  change (char.val + 32).toNat = char.val.toNat + 32
  have code : char.val.toNat = char.toNat := rfl
  rw [UInt32.toNat_add, Nat.mod_eq_of_lt]
  · rfl
  · change char.val.toNat + 32 < _
    omega

end Codes

namespace Str

/-- Unicode's `White_Space` property, which is what `char::is_whitespace` tests. -/
def isWhitespace (char : Char) : Bool :=
  let code := char.toNat
  (0x09 ≤ code && code ≤ 0x0D) || code == 0x20 || code == 0x85 || code == 0xA0 ||
    code == 0x1680 || (0x2000 ≤ code && code ≤ 0x200A) || code == 0x2028 ||
    code == 0x2029 || code == 0x202F || code == 0x205F || code == 0x3000

theorem isWhitespace_of_isAlphanum {char : Char} (letter : char.isAlphanum = true) :
    isWhitespace char = false := by
  rw [isAlphanum_iff, isUpper_iff, isLower_iff, isDigit_iff] at letter
  simp only [isWhitespace, Bool.or_eq_false_iff, Bool.and_eq_false_iff, decide_eq_false_iff_not,
    beq_eq_false_iff_ne]
  omega

/-- `str::len`: the length in bytes. -/
def len (text : Str) : Nat :=
  String.utf8Len text

def trimStart (text : Str) : Str :=
  text.dropWhile isWhitespace

def trim (text : Str) : Str :=
  text.trimStart.rdropWhile isWhitespace

/-- `str::strip_prefix`: what follows a leading string, when the text starts
with it. -/
def stripPrefix : Str → Str → Option Str
  | [], text => some text
  | _ :: _, [] => none
  | expected :: rest, char :: text =>
      if char = expected then stripPrefix rest text else none

/-- `str::trim_end_matches` for one character. -/
def trimEndMatches (char : Char) (text : Str) : Str :=
  text.rdropWhile (· == char)

/-- `str::split` on one character: the pieces between its occurrences, one more
than there are of those. -/
def split (separator : Char) : Str → List Str
  | [] => [[]]
  | char :: text =>
      match split separator text with
      | [] => [[]]
      | piece :: pieces =>
          if char = separator then [] :: piece :: pieces
          else (char :: piece) :: pieces

theorem trimEndMatches_of_not_mem {char : Char} {text : Str} (free : char ∉ text) :
    trimEndMatches char text = text := by
  rw [trimEndMatches, List.rdropWhile_eq_self_iff]
  intro nonempty same
  have lastMem := List.getLast_mem nonempty
  rw [beq_iff_eq.mp same] at lastMem
  exact free lastMem

theorem trimEndMatches_concat (char : Char) (text : Str) :
    trimEndMatches char (text ++ [char]) = trimEndMatches char text :=
  List.rdropWhile_concat_pos _ _ _ (beq_self_eq_true char)

theorem stripPrefix_eq_some_iff {expected text rest : Str} :
    stripPrefix expected text = some rest ↔ text = expected ++ rest := by
  induction expected generalizing text with
  | nil => simp [stripPrefix]
  | cons char expected ih =>
      cases text with
      | nil => simp [stripPrefix]
      | cons first text =>
          by_cases same : first = char
          · simp [stripPrefix, same, ih]
          · simp [stripPrefix, same]

/-- What pieces are joined to begins with the first of them. -/
theorem intercalate_cons (separator : Char) (first : Str) (others : List Str) :
    [separator].intercalate (first :: others) = first ++ others.flatMap (separator :: ·) := by
  induction others generalizing first with
  | nil => simp
  | cons other others ih =>
      rw [List.intercalate_cons_cons, ih, List.flatMap_cons, List.append_assoc]
      rfl

end Str

end Hermione
