import Mathlib.Tactic.SplitIfs
import Hermione.Utf16

/-!
# Strings in JSON text

A string is written from its UTF-16 units and read as its characters.  What
stands in quotes is escaped; a surrogate without its partner can only be written
as an escape, and is refused where it is read.
-/

namespace Json

/-! ### Writing -/

/-- Four hexadecimal digits. -/
def hex4 (unit : UInt16) : List Char :=
  [Nat.digitChar (unit.toNat / 4096), Nat.digitChar (unit.toNat / 256 % 16),
    Nat.digitChar (unit.toNat / 16 % 16), Nat.digitChar (unit.toNat % 16)]

/-- The letter of a short escape. -/
def shortEscape (unit : UInt16) : Option Char :=
  if unit = 0x22 then some '"'
  else if unit = 0x5C then some '\\'
  else if unit = 0x08 then some 'b'
  else if unit = 0x0C then some 'f'
  else if unit = 0x0A then some 'n'
  else if unit = 0x0D then some 'r'
  else if unit = 0x09 then some 't'
  else none

/-- A unit that is not part of a pair. -/
def escapeUnit (unit : UInt16) : List Char :=
  match shortEscape unit with
  | some letter => ['\\', letter]
  | none =>
      if unit < 0x20 || Utf16.isHigh unit || Utf16.isLow unit then '\\' :: 'u' :: hex4 unit
      else [Char.ofNat unit.toNat]

def escape : List UInt16 → List Char
  | [] => []
  | [unit] => escapeUnit unit
  | unit :: next :: units =>
      if Utf16.isHigh unit && Utf16.isLow next then Utf16.pair unit next :: escape units
      else escapeUnit unit ++ escape (next :: units)

def quote (units : List UInt16) : List Char :=
  '"' :: (escape units ++ ['"'])

/-! ### Reading -/

def hexValue (digit : Char) : Option Nat :=
  if digit.isDigit then some (digit.toNat - 0x30)
  else if 'a' ≤ digit ∧ digit ≤ 'f' then some (digit.toNat - 0x61 + 10)
  else if 'A' ≤ digit ∧ digit ≤ 'F' then some (digit.toNat - 0x41 + 10)
  else none

def readHex4 (first second third fourth : Char) : Option UInt16 := do
  let first ← hexValue first
  let second ← hexValue second
  let third ← hexValue third
  let fourth ← hexValue fourth
  return (first * 4096 + second * 256 + third * 16 + fourth).toUInt16

/-- What a short escape stands for. -/
def readEscape (letter : Char) : Option Char :=
  if letter = '"' then some '"'
  else if letter = '\\' then some '\\'
  else if letter = '/' then some '/'
  else if letter = 'b' then some '\x08'
  else if letter = 'f' then some '\x0C'
  else if letter = 'n' then some '\n'
  else if letter = 'r' then some '\r'
  else if letter = 't' then some '\t'
  else none

/-- One more character in front of a string that was read. -/
def push (char : Char) : List Char × List Char → List Char × List Char
  | (text, rest) => (char :: text, rest)

/-- Reads up to the closing quote.  An escaped high surrogate is pending until
its partner comes, which has to be next. -/
def readString (pending : Option UInt16) : List Char → Option (List Char × List Char)
  | '\\' :: 'u' :: first :: second :: third :: fourth :: rest =>
      match readHex4 first second third fourth, pending with
      | none, _ => none
      | some unit, some high =>
          if Utf16.isLow unit then (readString none rest).map (push (Utf16.pair high unit))
          else none
      | some unit, none =>
          if Utf16.isHigh unit then readString (some unit) rest
          else if Utf16.isLow unit then none
          else (readString none rest).map (push (Char.ofNat unit.toNat))
  | '\\' :: letter :: rest =>
      match readEscape letter, pending with
      | some char, none => (readString none rest).map (push char)
      | _, _ => none
  | '"' :: rest => if pending.isSome then none else some ([], rest)
  | char :: rest =>
      if char = '\\' || pending.isSome || char.toNat < 0x20 then none
      else (readString none rest).map (push char)
  | [] => none

/-! ### Reading what was written -/

theorem hexValue_digitChar {digit : Nat} (small : digit < 16) :
    hexValue (Nat.digitChar digit) = some digit := by
  revert digit
  decide

theorem readHex4_hex4 (unit : UInt16) :
    readHex4 (Nat.digitChar (unit.toNat / 4096)) (Nat.digitChar (unit.toNat / 256 % 16))
      (Nat.digitChar (unit.toNat / 16 % 16)) (Nat.digitChar (unit.toNat % 16)) = some unit := by
  have bound := unit.toNat_lt
  have whole : unit.toNat / 4096 * 4096 + unit.toNat / 256 % 16 * 256 +
      unit.toNat / 16 % 16 * 16 + unit.toNat % 16 = unit.toNat := by
    omega
  have top : unit.toNat / 4096 < 16 := by
    omega
  rw [readHex4, hexValue_digitChar top, hexValue_digitChar (Nat.mod_lt _ (by decide)),
    hexValue_digitChar (Nat.mod_lt _ (by decide)), hexValue_digitChar (Nat.mod_lt _ (by decide))]
  simp only [Option.bind_eq_bind, Option.bind_some, whole]
  simp [Nat.toUInt16]

section Units

variable (unit : UInt16) (rest : List Char)

theorem readString_hex4 :
    readString none ('\\' :: 'u' :: (hex4 unit ++ rest)) =
      if Utf16.isHigh unit then readString (some unit) rest
      else if Utf16.isLow unit then none
      else (readString none rest).map (push (Char.ofNat unit.toNat)) := by
  have read := readHex4_hex4 unit
  unfold hex4
  conv => lhs; unfold readString
  simp [read]

theorem readString_pending_hex4 (high : UInt16) :
    readString (some high) ('\\' :: 'u' :: (hex4 unit ++ rest)) =
      if Utf16.isLow unit then (readString none rest).map (push (Utf16.pair high unit))
      else none := by
  have read := readHex4_hex4 unit
  unfold hex4
  conv => lhs; unfold readString
  simp [read]

/-- A unit that needs no escape is read as its character. -/
theorem readString_plain {char : Char} (slash : char ≠ '\\') (quote : char ≠ '"')
    (visible : ¬ char.toNat < 0x20) :
    readString none (char :: rest) = (readString none rest).map (push char) := by
  rw [readString]
  · simp [slash, visible]
  · exact fun _ _ _ _ _ same => absurd same slash
  · exact fun _ _ same => absurd same slash
  · exact quote

theorem readString_pending_plain (high : UInt16) {char : Char} (slash : char ≠ '\\') :
    readString (some high) (char :: rest) = none := by
  by_cases quote : char = '"'
  · rw [quote, readString]
    rfl
  · rw [readString]
    · simp
    · exact fun _ _ _ _ _ same => absurd same slash
    · exact fun _ _ same => absurd same slash
    · exact quote

variable {unit} in
theorem ne_of_shortEscape (code : (Char.ofNat unit.toNat).toNat = unit.toNat)
    (long : shortEscape unit = none) {char : Char}
    (short : shortEscape char.toNat.toUInt16 ≠ none) : Char.ofNat unit.toNat ≠ char := by
  rintro rfl
  apply short
  rw [code]
  simpa [Nat.toUInt16] using long

/-- What is read of a unit that is not a surrogate. -/
theorem readString_escapeUnit (high : Utf16.isHigh unit = false) (low : Utf16.isLow unit = false) :
    readString none (escapeUnit unit ++ rest) =
      (readString none rest).map (push (Char.ofNat unit.toNat)) := by
  have code := Utf16.toNat_single high low
  unfold escapeUnit
  split
  · next letter short =>
      unfold shortEscape at short
      split_ifs at short with same same same same same same same <;> cases short <;>
        rw [same] <;> rfl
  · next long =>
      by_cases control : unit < 0x20
      · have escaped : (unit < 0x20 || Utf16.isHigh unit || Utf16.isLow unit) = true := by
          simp [control]
        rw [if_pos escaped, List.cons_append, List.cons_append, readString_hex4, high, low]
        rfl
      · have plain : ¬ (unit < 0x20 || Utf16.isHigh unit || Utf16.isLow unit) = true := by
          simp [control, high, low]
        rw [if_neg plain, List.singleton_append]
        apply readString_plain
        · exact ne_of_shortEscape code long (by decide)
        · exact ne_of_shortEscape code long (by decide)
        · rw [code]
          simpa [UInt16.lt_iff_toNat_lt] using control

theorem shortEscape_of_surrogate (surrogate : 0xD800 ≤ unit.toNat) : shortEscape unit = none := by
  cases short : shortEscape unit with
  | none => rfl
  | some letter =>
      unfold shortEscape at short
      split_ifs at short with same same same same same same same <;>
        rw [same] at surrogate <;> exact absurd surrogate (by decide)

/-- A surrogate by itself is escaped. -/
theorem escapeUnit_of_surrogate (surrogate : Utf16.isHigh unit = true ∨ Utf16.isLow unit = true) :
    escapeUnit unit = '\\' :: 'u' :: hex4 unit := by
  have large : 0xD800 ≤ unit.toNat := by
    rw [Utf16.isHigh_iff, Utf16.isLow_iff] at surrogate
    omega
  rw [escapeUnit, shortEscape_of_surrogate unit large]
  rcases surrogate with high | low
  · simp [high]
  · simp [low]

/-- After an escaped high surrogate, only an escaped low one can be read. -/
theorem readString_pending_escapeUnit (high : UInt16) (low : Utf16.isLow unit = false) :
    readString (some high) (escapeUnit unit ++ rest) = none := by
  unfold escapeUnit
  split
  · next letter short =>
      unfold shortEscape at short
      split_ifs at short <;> cases short <;> rfl
  · next long =>
      split
      · rw [List.cons_append, List.cons_append, readString_pending_hex4, low]
        rfl
      · next plain =>
          simp only [low, Bool.or_false, Bool.or_eq_true, decide_eq_true_eq, not_or,
            Bool.not_eq_true] at plain
          apply readString_pending_plain
          exact ne_of_shortEscape (Utf16.toNat_single plain.2 low) long (by decide)

end Units

/-- Whatever comes, it is not the partner that is pending. -/
theorem readString_pending_escape (high : UInt16) {units : List UInt16} (rest : List Char)
    (alone : ∀ next, units.head? = some next → Utf16.isLow next = false) :
    readString (some high) (escape units ++ '"' :: rest) = none := by
  match units with
  | [] => rfl
  | [unit] =>
      rw [escape]
      exact readString_pending_escapeUnit unit _ high (alone unit rfl)
  | unit :: next :: units =>
      rw [escape]
      split
      · next both =>
          rw [Bool.and_eq_true] at both
          rw [List.cons_append]
          apply readString_pending_plain
          intro slash
          have code := Utf16.toNat_pair both.1 both.2
          have ascii : ('\\' : Char).toNat = 0x5C := rfl
          rw [slash, ascii] at code
          omega
      · rw [List.append_assoc]
        exact readString_pending_escapeUnit unit _ high (alone unit rfl)

/-- A high surrogate without its partner is refused, ... -/
theorem readString_lone_high {unit : UInt16} (high : Utf16.isHigh unit = true)
    {units : List UInt16} (rest : List Char)
    (alone : ∀ next, units.head? = some next → Utf16.isLow next = false) :
    readString none (escapeUnit unit ++ (escape units ++ '"' :: rest)) = none := by
  rw [escapeUnit_of_surrogate unit (.inl high), List.cons_append, List.cons_append,
    readString_hex4, if_pos high]
  exact readString_pending_escape unit rest alone

/-- ... and so is a low one. -/
theorem readString_lone_low {unit : UInt16} (low : Utf16.isLow unit = true) (rest : List Char) :
    readString none (escapeUnit unit ++ rest) = none := by
  have high : ¬ Utf16.isHigh unit = true := by
    rw [Utf16.isLow_iff] at low
    rw [Utf16.isHigh_iff]
    omega
  rw [escapeUnit_of_surrogate unit (.inr low), List.cons_append, List.cons_append,
    readString_hex4, if_neg high, if_pos low]

/-- A string that was written is read as its text, and refused if it has none. -/
theorem readString_escape (units : List UInt16) (rest : List Char) :
    readString none (escape units ++ '"' :: rest) =
      (Utf16.decode units).map fun text => (text, rest) := by
  induction units using Utf16.decode.induct with
  | case1 => rfl
  | case2 unit surrogate =>
      rw [Utf16.decode, if_pos surrogate, escape]
      rcases Bool.or_eq_true_iff.mp surrogate with high | low
      · exact @readString_lone_high unit high [] rest fun _ same => by cases same
      · exact readString_lone_low low _
  | case3 unit single =>
      rw [Utf16.decode, if_neg single, escape]
      rw [Bool.or_eq_true, not_or, Bool.not_eq_true, Bool.not_eq_true] at single
      rw [readString_escapeUnit _ _ single.1 single.2]
      rfl
  | case4 unit next units high low ih =>
      have code := Utf16.toNat_pair high low
      have slash : ('\\' : Char).toNat = 0x5C := rfl
      have quote : ('"' : Char).toNat = 0x22 := rfl
      rw [Utf16.decode, if_pos high, if_pos low, escape, high, low, Bool.and_self, if_pos rfl,
        List.cons_append, readString_plain, ih, Option.map_map, Option.map_map]
      · rfl
      · intro same
        rw [same] at code
        omega
      · intro same
        rw [same] at code
        omega
      · omega
  | case5 unit next units high low =>
      rw [Utf16.decode, if_pos high, if_neg low, escape, if_neg (by simp [low]),
        List.append_assoc]
      rw [Bool.not_eq_true] at low
      exact readString_lone_high high rest fun other same => by cases same; exact low
  | case6 unit next units high low =>
      rw [Utf16.decode, if_neg high, if_pos low, escape, if_neg (by simp [high]),
        List.append_assoc]
      exact readString_lone_low low _
  | case7 unit next units high low ih =>
      rw [Utf16.decode, if_neg high, if_neg low, escape, if_neg (by simp [high]),
        List.append_assoc]
      rw [Bool.not_eq_true] at high low
      rw [readString_escapeUnit _ _ high low, ih, Option.map_map, Option.map_map]
      rfl

end Json
