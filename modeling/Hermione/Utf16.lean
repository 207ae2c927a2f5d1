import Mathlib.Data.List.Induction

/-!
# UTF-16

A string as a list of 16-bit units, any units, and the texts some of them encode.
A character beyond the first plane takes a pair of surrogates, the high one
first; a list of units encodes a text if its surrogates come in such pairs.
-/

namespace Utf16

def LINE_FEED : UInt16 :=
  0x0A

def SLASH : UInt16 :=
  0x2F

def isHigh (unit : UInt16) : Bool :=
  0xD800 ≤ unit && unit < 0xDC00

def isLow (unit : UInt16) : Bool :=
  0xDC00 ≤ unit && unit < 0xE000

/-- The units of one character. -/
def encodeChar (char : Char) : List UInt16 :=
  if char.toNat < 0x10000 then [char.toNat.toUInt16]
  else
    [(0xD800 + (char.toNat - 0x10000) / 0x400).toUInt16,
      (0xDC00 + (char.toNat - 0x10000) % 0x400).toUInt16]

def encode (text : List Char) : List UInt16 :=
  text.flatMap encodeChar

/-- The character of a pair of surrogates. -/
def pair (high low : UInt16) : Char :=
  Char.ofNat (0x10000 + (high.toNat - 0xD800) * 0x400 + (low.toNat - 0xDC00))

/-- The text that is encoded, if there is one. -/
def decode : List UInt16 → Option (List Char)
  | [] => some []
  | [unit] =>
      if isHigh unit || isLow unit then none else some [Char.ofNat unit.toNat]
  | unit :: next :: units =>
      if isHigh unit then
        if isLow next then (decode units).map (pair unit next :: ·) else none
      else if isLow unit then none
      else (decode (next :: units)).map (Char.ofNat unit.toNat :: ·)

/-- Every surrogate is part of a pair. -/
def WellFormed (units : List UInt16) : Prop :=
  (decode units).isSome

instance (units : List UInt16) : Decidable (WellFormed units) :=
  inferInstanceAs (Decidable (_ = true))

theorem isHigh_iff (unit : UInt16) :
    isHigh unit = true ↔ 0xD800 ≤ unit.toNat ∧ unit.toNat < 0xDC00 := by
  simp [isHigh, UInt16.le_iff_toNat_le, UInt16.lt_iff_toNat_lt]

theorem isLow_iff (unit : UInt16) :
    isLow unit = true ↔ 0xDC00 ≤ unit.toNat ∧ unit.toNat < 0xE000 := by
  simp [isLow, UInt16.le_iff_toNat_le, UInt16.lt_iff_toNat_lt]

/-! ### One character -/

theorem toNat_ofNat {code : Nat} (valid : code.isValidChar) : (Char.ofNat code).toNat = code := by
  rw [Char.ofNat, dif_pos valid]
  rfl

/-- A character is a scalar value: below the surrogates or above them. -/
theorem toNat_bounds (char : Char) :
    char.toNat < 0xD800 ∨ (0xE000 ≤ char.toNat ∧ char.toNat < 0x110000) := by
  have valid := char.valid
  simp only [UInt32.isValidChar, Nat.isValidChar] at valid
  have code : char.val.toNat = char.toNat := rfl
  omega

/-- What the units of a character are. -/
theorem encodeChar_cases (char : Char) :
    (∃ unit, encodeChar char = [unit] ∧ isHigh unit = false ∧ isLow unit = false ∧
      Char.ofNat unit.toNat = char) ∨
    ∃ high low, encodeChar char = [high, low] ∧ isHigh high = true ∧ isLow low = true ∧
      pair high low = char := by
  have bounds := toNat_bounds char
  unfold encodeChar
  split
  · next plane =>
      have code : char.toNat.toUInt16.toNat = char.toNat := by
        simp only [Nat.toUInt16, UInt16.toNat_ofNat']
        omega
      refine .inl ⟨_, rfl, ?_, ?_, ?_⟩
      · rw [Bool.eq_false_iff, ne_eq, isHigh_iff, code]
        omega
      · rw [Bool.eq_false_iff, ne_eq, isLow_iff, code]
        omega
      · rw [code, Char.ofNat_toNat]
  · next beyond =>
      have highCode : (0xD800 + (char.toNat - 0x10000) / 0x400).toUInt16.toNat =
          0xD800 + (char.toNat - 0x10000) / 0x400 := by
        simp only [Nat.toUInt16, UInt16.toNat_ofNat']
        omega
      have lowCode : (0xDC00 + (char.toNat - 0x10000) % 0x400).toUInt16.toNat =
          0xDC00 + (char.toNat - 0x10000) % 0x400 := by
        simp only [Nat.toUInt16, UInt16.toNat_ofNat']
        omega
      refine .inr ⟨_, _, rfl, ?_, ?_, ?_⟩
      · rw [isHigh_iff, highCode]
        omega
      · rw [isLow_iff, lowCode]
        omega
      · have whole : 0x10000 + (0xD800 + (char.toNat - 0x10000) / 0x400 - 0xD800) * 0x400 +
            (0xDC00 + (char.toNat - 0x10000) % 0x400 - 0xDC00) = char.toNat := by
          omega
        rw [pair, highCode, lowCode, whole, Char.ofNat_toNat]

/-- A unit that is not a surrogate is the code of a character. -/
theorem toNat_single {unit : UInt16} (high : isHigh unit = false) (low : isLow unit = false) :
    (Char.ofNat unit.toNat).toNat = unit.toNat := by
  rw [Bool.eq_false_iff, ne_eq, isHigh_iff] at high
  rw [Bool.eq_false_iff, ne_eq, isLow_iff] at low
  have small := unit.toNat_lt
  apply toNat_ofNat
  simp only [Nat.isValidChar]
  omega

theorem encodeChar_of_single {unit : UInt16} (high : isHigh unit = false)
    (low : isLow unit = false) : encodeChar (Char.ofNat unit.toNat) = [unit] := by
  rw [encodeChar, toNat_single high low, if_pos unit.toNat_lt]
  simp [Nat.toUInt16]

theorem toNat_pair {high low : UInt16} (first : isHigh high = true) (second : isLow low = true) :
    (pair high low).toNat = 0x10000 + (high.toNat - 0xD800) * 0x400 + (low.toNat - 0xDC00) := by
  rw [isHigh_iff] at first
  rw [isLow_iff] at second
  apply toNat_ofNat
  simp only [Nat.isValidChar]
  omega

theorem encodeChar_pair {high low : UInt16} (first : isHigh high = true)
    (second : isLow low = true) : encodeChar (pair high low) = [high, low] := by
  have code := toNat_pair first second
  rw [isHigh_iff] at first
  rw [isLow_iff] at second
  have highCode : 0xD800 + (0x10000 + (high.toNat - 0xD800) * 0x400 + (low.toNat - 0xDC00) -
      0x10000) / 0x400 = high.toNat := by
    omega
  have lowCode : 0xDC00 + (0x10000 + (high.toNat - 0xD800) * 0x400 + (low.toNat - 0xDC00) -
      0x10000) % 0x400 = low.toNat := by
    omega
  rw [encodeChar, code, if_neg (by omega), highCode, lowCode]
  simp [Nat.toUInt16]

/-! ### Whole texts -/

@[simp]
theorem encode_nil : encode [] = [] :=
  rfl

@[simp]
theorem encode_cons (char : Char) (text : List Char) :
    encode (char :: text) = encodeChar char ++ encode text :=
  rfl

@[simp]
theorem encode_append (first second : List Char) :
    encode (first ++ second) = encode first ++ encode second :=
  List.flatMap_append

/-- The units of a character are read as that character. -/
theorem decode_encodeChar_append (char : Char) (units : List UInt16) :
    decode (encodeChar char ++ units) = (decode units).map (char :: ·) := by
  rcases encodeChar_cases char with
    ⟨unit, own, high, low, rfl⟩ | ⟨high, low, own, first, second, rfl⟩
  · rw [own]
    cases units with
    | nil => simp [decode, high, low]
    | cons next units => simp [decode, high, low]
  · rw [own]
    simp [decode, first, second]

theorem decode_encode_append (text : List Char) (units : List UInt16) :
    decode (encode text ++ units) = (decode units).map (text ++ ·) := by
  induction text with
  | nil => simp
  | cons char text ih =>
      rw [encode_cons, List.append_assoc, decode_encodeChar_append, ih, Option.map_map]
      rfl

@[simp]
theorem decode_encode (text : List Char) : decode (encode text) = some text := by
  have whole := decode_encode_append text []
  rw [List.append_nil] at whole
  rw [whole]
  simp [decode]

/-- Decoding loses nothing. -/
theorem encode_of_decode {units : List UInt16} {text : List Char}
    (decoded : decode units = some text) : encode text = units := by
  induction units using decode.induct generalizing text with
  | case1 =>
      cases decoded
      rfl
  | case2 unit surrogate =>
      rw [decode, if_pos surrogate] at decoded
      cases decoded
  | case3 unit single =>
      rw [decode, if_neg single] at decoded
      cases decoded
      rw [Bool.or_eq_true, not_or, Bool.not_eq_true, Bool.not_eq_true] at single
      simp [encodeChar_of_single single.1 single.2]
  | case4 unit next units high low ih =>
      rw [decode, if_pos high, if_pos low] at decoded
      obtain ⟨rest, read, rfl⟩ := Option.map_eq_some_iff.mp decoded
      rw [encode_cons, encodeChar_pair high low, ih read]
      rfl
  | case5 unit next units high low =>
      rw [decode, if_pos high, if_neg low] at decoded
      cases decoded
  | case6 unit next units high low =>
      rw [decode, if_neg high, if_pos low] at decoded
      cases decoded
  | case7 unit next units high low ih =>
      rw [decode, if_neg high, if_neg low] at decoded
      obtain ⟨rest, read, rfl⟩ := Option.map_eq_some_iff.mp decoded
      rw [Bool.not_eq_true] at high low
      rw [encode_cons, encodeChar_of_single high low, ih read]
      rfl

theorem decode_eq_some_iff {units : List UInt16} {text : List Char} :
    decode units = some text ↔ units = encode text := by
  constructor
  · intro decoded
    exact (encode_of_decode decoded).symm
  · rintro rfl
    exact decode_encode text

/-- What begins with the units of a text encodes that text and another. -/
theorem encode_eq_append_iff {path text : List Char} {units : List UInt16} :
    encode path = encode text ++ units ↔ ∃ rest, path = text ++ rest ∧ units = encode rest := by
  constructor
  · intro whole
    have read := decode_encode_append text units
    rw [← whole, decode_encode] at read
    obtain ⟨rest, decoded, own⟩ := Option.map_eq_some_iff.mp read.symm
    exact ⟨rest, own.symm, (encode_of_decode decoded).symm⟩
  · rintro ⟨rest, rfl, rfl⟩
    exact encode_append text rest

/-- The first unit tells the first character, unless it is half of a pair. -/
theorem exists_cons_of_head {text : List Char} {unit : UInt16}
    (head : (encode text).head? = some unit) (single : isHigh unit = false) :
    ∃ rest, text = Char.ofNat unit.toNat :: rest := by
  cases text with
  | nil => cases head
  | cons char text =>
      rw [encode_cons] at head
      rcases encodeChar_cases char with ⟨first, own, -, -, same⟩ | ⟨high, low, own, first, -, -⟩
      · rw [own] at head
        cases head
        exact ⟨text, by rw [same]⟩
      · rw [own] at head
        cases head
        rw [first] at single
        cases single

theorem wellFormed_iff {units : List UInt16} : WellFormed units ↔ ∃ text, units = encode text := by
  simp only [WellFormed, Option.isSome_iff_exists, decode_eq_some_iff]

theorem wellFormed_encode (text : List Char) : WellFormed (encode text) :=
  wellFormed_iff.mpr ⟨text, rfl⟩

/-! ### Cutting -/

/-- A pair of surrogates is cut apart: the last unit before the cut is a high
one. -/
def SplitsPair (units : List UInt16) (length : Nat) : Prop :=
  ∃ unit, (units.take length).getLast? = some unit ∧ isHigh unit = true

theorem not_isHigh_last {text : List Char} {unit : UInt16}
    (ends : (encode text).getLast? = some unit) : isHigh unit = false := by
  cases text using List.reverseRecOn with
  | nil => cases ends
  | append_singleton text char =>
      rw [encode_append, encode_cons, encode_nil, List.append_nil] at ends
      rcases encodeChar_cases char with ⟨single, own, high, -, -⟩ | ⟨high, low, own, -, second, -⟩
      · rw [own, List.getLast?_concat] at ends
        cases ends
        exact high
      · rw [own, List.append_cons, List.getLast?_concat] at ends
        cases ends
        rw [isLow_iff] at second
        rw [Bool.eq_false_iff, ne_eq, isHigh_iff]
        omega

theorem wellFormed_encodeChar_append (char : Char) (units : List UInt16) :
    WellFormed (encodeChar char ++ units) ↔ WellFormed units := by
  rw [WellFormed, decode_encodeChar_append, Option.isSome_map, WellFormed]

theorem SplitsPair.append {units : List UInt16} {length : Nat} (split : SplitsPair units length)
    (before : List UInt16) : SplitsPair (before ++ units) (before.length + length) := by
  obtain ⟨unit, ends, high⟩ := split
  refine ⟨unit, ?_, high⟩
  rw [List.take_length_add_append, List.getLast?_append, ends]
  rfl

/-- The first units of a text encode one themselves, unless a pair is cut apart. -/
theorem wellFormed_take_iff {units : List UInt16} (whole : WellFormed units) (length : Nat) :
    WellFormed (units.take length) ↔ ¬ SplitsPair units length := by
  obtain ⟨text, rfl⟩ := wellFormed_iff.mp whole
  clear whole
  constructor
  · rintro formed ⟨unit, ends, high⟩
    obtain ⟨start, cut⟩ := wellFormed_iff.mp formed
    rw [cut] at ends
    rw [not_isHigh_last ends] at high
    cases high
  · intro together
    induction text generalizing length with
    | nil => simp [WellFormed, decode]
    | cons char text ih =>
        rw [encode_cons] at together ⊢
        by_cases short : length < (encodeChar char).length
        · rcases encodeChar_cases char with ⟨unit, own, -⟩ | ⟨high, low, own, first, -⟩
          · rw [own, List.length_singleton, Nat.lt_one_iff] at short
            rw [short]
            exact wellFormed_encode []
          · rw [own] at short together ⊢
            rcases length with _ | _ | length
            · exact wellFormed_encode []
            · exact absurd ⟨high, rfl, first⟩ together
            · simp only [List.length_cons, List.length_nil] at short
              omega
        · obtain ⟨more, rfl⟩ := Nat.exists_eq_add_of_le (Nat.le_of_not_lt short)
          rw [List.take_length_add_append, wellFormed_encodeChar_append]
          exact ih more fun split => together (split.append _)

end Utf16
