import Mathlib.Data.List.TakeWhile
import Hermione.JsonStrings

/-!
# JSON text

Values are written without blanks, as `JSON.stringify` writes them, and read with
blanks between any two tokens.  What was written is read as the same value,
with its strings decoded; a value with a string that encodes no text is refused.
-/

namespace Json

/-! ### Values -/

/-- What follows some digits, at least one. -/
def afterDigits (text : List Char) : Option (List Char) :=
  if text.takeWhile Char.isDigit = [] then none else some (text.dropWhile Char.isDigit)

def afterFraction : List Char → Option (List Char)
  | '.' :: rest => afterDigits rest
  | rest => some rest

def afterExponent : List Char → Option (List Char)
  | 'e' :: '+' :: rest | 'e' :: '-' :: rest | 'E' :: '+' :: rest | 'E' :: '-' :: rest
  | 'e' :: rest | 'E' :: rest => afterDigits rest
  | rest => some rest

def unsigned : List Char → List Char
  | '-' :: rest => rest
  | rest => rest

/-- A number as JSON writes it, with no zero in front of other digits. -/
def isNumeral (text : List Char) : Bool :=
  let rest := (unsigned text).dropWhile Char.isDigit
  match (unsigned text).takeWhile Char.isDigit with
  | [] => false
  | first :: digits =>
      (first != '0' || digits.isEmpty) && (afterFraction rest).bind afterExponent == some []

structure Numeral where
  text : List Char
  valid : isNumeral text = true
  deriving DecidableEq

end Json

/-- A JSON value whose strings are of some kind. -/
inductive Json (Text : Type) where
  | null
  | bool (value : Bool)
  | number (numeral : Json.Numeral)
  | string (text : Text)
  | array (elements : List (Json Text))
  | object (members : List (Text × Json Text))

namespace Json

/-- A member of an object: the last one of that name. -/
def get {Text : Type} [DecidableEq Text] (key : Text) : Json Text → Option (Json Text)
  | .object members => (members.filter fun member => member.1 = key).getLast?.map Prod.snd
  | _ => none

mutual

/-- The value with its strings decoded, if they all are texts. -/
def decode : Json (List UInt16) → Option (Json (List Char))
  | .null => some .null
  | .bool value => some (.bool value)
  | .number numeral => some (.number numeral)
  | .string text => (Utf16.decode text).map .string
  | .array elements => (decodeElements elements).map .array
  | .object members => (decodeMembers members).map .object

def decodeElements : List (Json (List UInt16)) → Option (List (Json (List Char)))
  | [] => some []
  | value :: elements => do
      let value ← decode value
      let elements ← decodeElements elements
      return value :: elements

def decodeMembers :
    List (List UInt16 × Json (List UInt16)) → Option (List (List Char × Json (List Char)))
  | [] => some []
  | (key, value) :: members => do
      let key ← Utf16.decode key
      let value ← decode value
      let members ← decodeMembers members
      return (key, value) :: members

end

/-! ### Writing -/

mutual

def stringify : Json (List UInt16) → List Char
  | .null => ['n', 'u', 'l', 'l']
  | .bool true => ['t', 'r', 'u', 'e']
  | .bool false => ['f', 'a', 'l', 's', 'e']
  | .number numeral => numeral.text
  | .string text => quote text
  | .array elements => '[' :: stringifyElements elements
  | .object members => '{' :: stringifyMembers members

def stringifyElements : List (Json (List UInt16)) → List Char
  | [] => [']']
  | [value] => stringify value ++ [']']
  | value :: next :: elements => stringify value ++ ',' :: stringifyElements (next :: elements)

def stringifyMembers : List (List UInt16 × Json (List UInt16)) → List Char
  | [] => ['}']
  | [(key, value)] => quote key ++ ':' :: (stringify value ++ ['}'])
  | (key, value) :: next :: members =>
      quote key ++ ':' :: (stringify value ++ ',' :: stringifyMembers (next :: members))

end

/-! ### Reading -/

def isBlank (char : Char) : Bool :=
  char == ' ' || char == '\t' || char == '\n' || char == '\r'

def skip (text : List Char) : List Char :=
  text.dropWhile isBlank

/-- What follows a token. -/
def expect (token text : List Char) : Option (List Char) :=
  if token.isPrefixOf text then some (text.drop token.length) else none

/-- What can be part of a number. -/
def isNumeric (char : Char) : Bool :=
  char.isDigit || char == '-' || char == '+' || char == '.' || char == 'e' || char == 'E'

def readNumber (text : List Char) : Option (Numeral × List Char) :=
  if valid : isNumeral (text.takeWhile isNumeric) = true then
    some (⟨_, valid⟩, text.dropWhile isNumeric)
  else none

def readQuoted (text : List Char) : Option (List Char × List Char) :=
  (expect ['"'] text).bind (readString none)

mutual

/-- Reads a value off the start of a text.  The fuel is more than the length of
the value needs. -/
def readValue : Nat → List Char → Option (Json (List Char) × List Char)
  | 0, _ => none
  | fuel + 1, text =>
      match skip text with
      | [] => none
      | char :: rest =>
          if char = '"' then (readString none rest).map fun (text, rest) => (.string text, rest)
          else if char = '[' then
            if (skip rest).head? = some ']' then some (.array [], (skip rest).tail)
            else (readElements fuel rest).map fun (elements, rest) => (.array elements, rest)
          else if char = '{' then
            if (skip rest).head? = some '}' then some (.object [], (skip rest).tail)
            else (readMembers fuel rest).map fun (members, rest) => (.object members, rest)
          else if char = 'n' then (expect ['u', 'l', 'l'] rest).map fun rest => (.null, rest)
          else if char = 't' then
            (expect ['r', 'u', 'e'] rest).map fun rest => (.bool true, rest)
          else if char = 'f' then
            (expect ['a', 'l', 's', 'e'] rest).map fun rest => (.bool false, rest)
          else (readNumber (char :: rest)).map fun (numeral, rest) => (.number numeral, rest)

def readElements : Nat → List Char → Option (List (Json (List Char)) × List Char)
  | 0, _ => none
  | fuel + 1, text =>
      match readValue fuel text with
      | none => none
      | some (value, rest) =>
          match skip rest with
          | ']' :: rest => some ([value], rest)
          | ',' :: rest =>
              (readElements fuel rest).map fun (elements, rest) => (value :: elements, rest)
          | _ => none

def readMembers : Nat → List Char → Option (List (List Char × Json (List Char)) × List Char)
  | 0, _ => none
  | fuel + 1, text =>
      match readQuoted (skip text) with
      | none => none
      | some (key, rest) =>
          match (expect [':'] (skip rest)).bind (readValue fuel) with
          | none => none
          | some (value, rest) =>
              match skip rest with
              | '}' :: rest => some ([(key, value)], rest)
              | ',' :: rest =>
                  (readMembers fuel rest).map fun (members, rest) => ((key, value) :: members, rest)
              | _ => none

end

/-- Reads a whole text as one value. -/
def parse (text : List Char) : Option (Json (List Char)) :=
  match readValue (text.length + 1) text with
  | some (value, rest) => if skip rest = [] then some value else none
  | none => none

/-! ### Reading what was written -/

/-- A text is some part of a number and a rest. -/
def Leaves (text rest : List Char) : Prop :=
  ∃ part, text = part ++ rest ∧ ∀ char ∈ part, isNumeric char = true

theorem Leaves.refl (text : List Char) : Leaves text text :=
  ⟨[], rfl, by simp⟩

theorem Leaves.cons {text rest : List Char} (leaves : Leaves text rest) {char : Char}
    (numeric : isNumeric char = true) : Leaves (char :: text) rest := by
  obtain ⟨part, rfl, all⟩ := leaves
  refine ⟨char :: part, rfl, ?_⟩
  rw [List.forall_mem_cons]
  exact ⟨numeric, all⟩

theorem Leaves.trans {text middle rest : List Char} (first : Leaves text middle)
    (second : Leaves middle rest) : Leaves text rest := by
  obtain ⟨part, rfl, all⟩ := first
  obtain ⟨more, rfl, others⟩ := second
  refine ⟨part ++ more, (List.append_assoc _ _ _).symm, ?_⟩
  rw [List.forall_mem_append]
  exact ⟨all, others⟩

theorem leaves_digits (text : List Char) : Leaves text (text.dropWhile Char.isDigit) := by
  refine ⟨_, List.takeWhile_append_dropWhile.symm, ?_⟩
  intro char member
  have digit := List.mem_takeWhile_imp member
  simp [isNumeric, digit]

theorem leaves_afterDigits {text rest : List Char} (after : afterDigits text = some rest) :
    Leaves text rest := by
  unfold afterDigits at after
  split at after
  · cases after
  · cases after
    exact leaves_digits text

theorem leaves_afterFraction {text rest : List Char} (after : afterFraction text = some rest) :
    Leaves text rest := by
  unfold afterFraction at after
  split at after
  · exact (leaves_afterDigits after).cons (by decide)
  · cases after
    exact .refl _

theorem leaves_afterExponent {text rest : List Char} (after : afterExponent text = some rest) :
    Leaves text rest := by
  unfold afterExponent at after
  split at after
  · exact ((leaves_afterDigits after).cons (by decide)).cons (by decide)
  · exact ((leaves_afterDigits after).cons (by decide)).cons (by decide)
  · exact ((leaves_afterDigits after).cons (by decide)).cons (by decide)
  · exact ((leaves_afterDigits after).cons (by decide)).cons (by decide)
  · exact (leaves_afterDigits after).cons (by decide)
  · exact (leaves_afterDigits after).cons (by decide)
  · cases after
    exact .refl _

theorem leaves_unsigned (text : List Char) : Leaves text (unsigned text) := by
  unfold unsigned
  split
  · exact (Leaves.refl _).cons (by decide)
  · exact .refl _

/-- A number is of nothing else than what numbers are made of. -/
theorem isNumeric_of_isNumeral {text : List Char} (valid : isNumeral text = true) :
    text ≠ [] ∧ ∀ char ∈ text, isNumeric char = true := by
  unfold isNumeral at valid
  dsimp only at valid
  split at valid
  · cases valid
  · next first digits own =>
      rw [Bool.and_eq_true, beq_iff_eq] at valid
      obtain ⟨middle, fraction, exponent⟩ := Option.bind_eq_some_iff.mp valid.2
      obtain ⟨part, same, all⟩ := (leaves_unsigned text).trans ((leaves_digits _).trans
        ((leaves_afterFraction fraction).trans (leaves_afterExponent exponent)))
      rw [List.append_nil] at same
      refine ⟨?_, same ▸ all⟩
      rintro rfl
      cases own

/-- A text that goes on with something else than a number. -/
def Ends (rest : List Char) : Prop :=
  ∀ char, rest.head? = some char → isNumeric char = false

theorem readNumber_numeral (numeral : Numeral) {rest : List Char} (ends : Ends rest) :
    readNumber (numeral.text ++ rest) = some (numeral, rest) := by
  have numeric := (isNumeric_of_isNumeral numeral.valid).2
  have after : rest.takeWhile isNumeric = [] ∧ rest.dropWhile isNumeric = rest := by
    cases rest with
    | nil => exact ⟨rfl, rfl⟩
    | cons char rest =>
        have other := ends char rfl
        simp [other]
  have taken : (numeral.text ++ rest).takeWhile isNumeric = numeral.text := by
    rw [List.takeWhile_append_of_pos numeric, after.1, List.append_nil]
  have left : (numeral.text ++ rest).dropWhile isNumeric = rest := by
    rw [List.dropWhile_append_of_pos numeric, after.2]
  unfold readNumber
  simp only [taken, left, numeral.valid, dite_true]

theorem skip_of_head {text : List Char}
    (visible : ∀ char, text.head? = some char → isBlank char = false) :
    skip text = text := by
  cases text with
  | nil => rfl
  | cons char text => exact List.dropWhile_cons_of_neg (by rw [visible char rfl]; decide)

theorem starts_of_isNumeric {char : Char} (numeric : isNumeric char = true) :
    isBlank char = false ∧ char ≠ ']' ∧ char ≠ '}' := by
  refine ⟨?_, ?_, ?_⟩
  · rw [Bool.eq_false_iff]
    intro blank
    simp only [isBlank, Bool.or_eq_true, beq_iff_eq] at blank
    rcases blank with ((rfl | rfl) | rfl) | rfl <;> exact absurd numeric (by decide)
  · rintro rfl
    exact absurd numeric (by decide)
  · rintro rfl
    exact absurd numeric (by decide)

/-- How a value starts. -/
theorem exists_stringify (value : Json (List UInt16)) :
    ∃ char rest, stringify value = char :: rest ∧ isBlank char = false ∧ char ≠ ']' ∧
      char ≠ '}' := by
  cases value with
  | null => exact ⟨_, _, rfl, by decide⟩
  | bool value => cases value <;> exact ⟨_, _, rfl, by decide⟩
  | number numeral =>
      obtain ⟨some, numeric⟩ := isNumeric_of_isNumeral numeral.valid
      obtain ⟨char, rest, own⟩ := List.exists_cons_of_ne_nil some
      have first := numeric char (by rw [own]; exact List.mem_cons_self)
      exact ⟨char, rest, own, starts_of_isNumeric first⟩
  | string text => exact ⟨_, _, rfl, by decide⟩
  | array elements => exact ⟨_, _, rfl, by decide⟩
  | object members => exact ⟨_, _, rfl, by decide⟩

theorem skip_stringify (value : Json (List UInt16)) (rest : List Char) :
    skip (stringify value ++ rest) = stringify value ++ rest := by
  obtain ⟨char, more, own, visible, -⟩ := exists_stringify value
  apply skip_of_head
  rw [own]
  rintro _ ⟨⟩
  exact visible

theorem readString_quote (text : List UInt16) (rest : List Char) :
    readString none (escape text ++ ['"'] ++ rest) =
      (Utf16.decode text).map fun text => (text, rest) := by
  rw [List.append_assoc, List.singleton_append]
  exact readString_escape text rest

theorem readQuoted_quote (text : List UInt16) (rest : List Char) :
    readQuoted (skip (quote text ++ rest)) = (Utf16.decode text).map fun text => (text, rest) := by
  rw [← readString_quote text rest]
  rfl

theorem ends_of_not_isNumeric {char : Char} (other : isNumeric char = false) (rest : List Char) :
    Ends (char :: rest) := by
  rintro _ ⟨⟩
  exact other

section Steps

variable {fuel : Nat} {text more rest : List Char} {value : Option (Json (List Char))}

theorem readElements_last (read : readValue fuel text = value.map (·, ']' :: rest)) :
    readElements (fuel + 1) text = value.map fun value => ([value], rest) := by
  rw [readElements, read]
  cases value <;> rfl

theorem readElements_more (read : readValue fuel text = value.map (·, ',' :: rest)) :
    readElements (fuel + 1) text = value.bind fun value =>
      (readElements fuel rest).map fun (elements, rest) => (value :: elements, rest) := by
  rw [readElements, read]
  cases value <;> rfl

variable {key : Option (List Char)}

theorem readMembers_last (named : readQuoted (skip text) = key.map (·, ':' :: more))
    (read : readValue fuel more = value.map (·, '}' :: rest)) :
    readMembers (fuel + 1) text = key.bind fun key =>
      value.map fun value => ([(key, value)], rest) := by
  have colon : (expect [':'] (skip (':' :: more))).bind (readValue fuel) =
      value.map (·, '}' :: rest) := read
  rw [readMembers, named]
  cases key with
  | none => rfl
  | some key =>
      dsimp only [Option.map_some]
      rw [colon]
      cases value <;> rfl

theorem readMembers_more (named : readQuoted (skip text) = key.map (·, ':' :: more))
    (read : readValue fuel more = value.map (·, ',' :: rest)) :
    readMembers (fuel + 1) text = key.bind fun key => value.bind fun value =>
      (readMembers fuel rest).map fun (members, rest) => ((key, value) :: members, rest) := by
  have colon : (expect [':'] (skip (':' :: more))).bind (readValue fuel) =
      value.map (·, ',' :: rest) := read
  rw [readMembers, named]
  cases key with
  | none => rfl
  | some key =>
      dsimp only [Option.map_some]
      rw [colon]
      cases value <;> rfl

theorem readValue_quote (text : List UInt16) (rest : List Char) :
    readValue (fuel + 1) (quote text ++ rest) =
      (Utf16.decode text).map fun text => (.string text, rest) := by
  have read := readString_quote text rest
  have head : readValue (fuel + 1) (quote text ++ rest) =
      (readString none (escape text ++ ['"'] ++ rest)).map
        fun (text, rest) => (.string text, rest) := by
    rw [readValue]
    rfl
  rw [head, read, Option.map_map]
  rfl

/-- A value that starts with neither a quote, a bracket nor a word is a number. -/
theorem readValue_numeral (numeral : Numeral) (ends : Ends rest) :
    readValue (fuel + 1) (numeral.text ++ rest) = some (.number numeral, rest) := by
  have read := readNumber_numeral numeral ends
  have visible := skip_stringify (.number numeral) rest
  rw [stringify] at visible
  obtain ⟨some, numeric⟩ := isNumeric_of_isNumeral numeral.valid
  obtain ⟨char, more, own⟩ := List.exists_cons_of_ne_nil some
  have first := numeric char (by rw [own]; exact List.mem_cons_self)
  rw [readValue, visible]
  rw [own, List.cons_append] at read ⊢
  have other : ∀ mark, isNumeric mark = false → char ≠ mark := by
    rintro mark plain rfl
    rw [plain] at first
    cases first
  simp only [other '"' (by decide), other '[' (by decide), other '{' (by decide),
    other 'n' (by decide), other 't' (by decide), other 'f' (by decide), if_false, read]
  rfl

end Steps

theorem readValue_array (first : Json (List UInt16)) (elements : List (Json (List UInt16)))
    (fuel : Nat) (rest : List Char) :
    readValue (fuel + 1) (stringify (.array (first :: elements)) ++ rest) =
      (readElements fuel (stringifyElements (first :: elements) ++ rest)).map
        fun (elements, rest) => (.array elements, rest) := by
  obtain ⟨char, more, own, visible, close, -⟩ := exists_stringify first
  have starts : ∃ more, stringifyElements (first :: elements) ++ rest = char :: more := by
    cases elements with
    | nil => exact ⟨_, by rw [stringifyElements, own]; rfl⟩
    | cons next elements => exact ⟨_, by rw [stringifyElements, own]; rfl⟩
  obtain ⟨more, starts⟩ := starts
  have head : readValue (fuel + 1) ('[' :: char :: more) =
      if (skip (char :: more)).head? = some ']' then some (.array [], (skip (char :: more)).tail)
      else (readElements fuel (char :: more)).map
        fun (elements, rest) => (.array elements, rest) := by
    rw [readValue]
    rfl
  have shown : skip (char :: more) = char :: more :=
    skip_of_head (by rintro _ ⟨⟩; exact visible)
  rw [stringify, List.cons_append, starts, head, shown, if_neg]
  rintro ⟨⟩
  exact close rfl

theorem readValue_object (member : List UInt16 × Json (List UInt16))
    (members : List (List UInt16 × Json (List UInt16))) (fuel : Nat) (rest : List Char) :
    readValue (fuel + 1) (stringify (.object (member :: members)) ++ rest) =
      (readMembers fuel (stringifyMembers (member :: members) ++ rest)).map
        fun (members, rest) => (.object members, rest) := by
  have starts : ∃ more, stringifyMembers (member :: members) ++ rest = '"' :: more := by
    cases members with
    | nil => exact ⟨_, by rw [stringifyMembers, quote]; rfl⟩
    | cons next members => exact ⟨_, by rw [stringifyMembers, quote]; rfl⟩
  obtain ⟨more, starts⟩ := starts
  have head : readValue (fuel + 1) ('{' :: '"' :: more) =
      (readMembers fuel ('"' :: more)).map fun (members, rest) => (.object members, rest) := by
    rw [readValue]
    rfl
  rw [stringify, List.cons_append, starts, head]

theorem length_stringify_pos (value : Json (List UInt16)) : 0 < (stringify value).length := by
  obtain ⟨char, rest, own, -⟩ := exists_stringify value
  rw [own]
  exact Nat.succ_pos _

mutual

/-- A value is read back, whatever follows it. -/
theorem readValue_stringify (value : Json (List UInt16)) {fuel : Nat}
    (enough : (stringify value).length ≤ fuel) {rest : List Char} (ends : Ends rest) :
    readValue fuel (stringify value ++ rest) = (decode value).map fun value => (value, rest) := by
  obtain ⟨fuel, rfl⟩ := Nat.exists_eq_succ_of_ne_zero
    (Nat.pos_iff_ne_zero.mp (lt_of_lt_of_le (length_stringify_pos value) enough))
  match value with
  | .null =>
      rw [readValue]
      rfl
  | .bool true =>
      rw [readValue]
      rfl
  | .bool false =>
      rw [readValue]
      rfl
  | .number numeral =>
      rw [stringify, readValue_numeral numeral ends, decode]
      rfl
  | .string text =>
      rw [stringify, readValue_quote, decode, Option.map_map]
      rfl
  | .array [] =>
      rw [readValue]
      rfl
  | .array (first :: elements) =>
      rw [stringify, List.length_cons] at enough
      rw [readValue_array, readElements_stringify first elements (by omega), decode,
        Option.map_map, Option.map_map]
      rfl
  | .object [] =>
      rw [readValue]
      rfl
  | .object (member :: members) =>
      rw [stringify, List.length_cons] at enough
      rw [readValue_object, readMembers_stringify member members (by omega), decode,
        Option.map_map, Option.map_map]
      rfl

theorem readElements_stringify (value : Json (List UInt16)) (elements : List (Json (List UInt16)))
    {fuel : Nat} (enough : (stringifyElements (value :: elements)).length ≤ fuel)
    (rest : List Char) :
    readElements fuel (stringifyElements (value :: elements) ++ rest) =
      (decodeElements (value :: elements)).map fun elements => (elements, rest) := by
  match elements with
  | [] =>
      rw [stringifyElements, List.length_append, List.length_singleton] at enough
      obtain ⟨fuel, rfl⟩ := Nat.exists_eq_succ_of_ne_zero (by omega : fuel ≠ 0)
      have read := readValue_stringify value (by omega : (stringify value).length ≤ fuel)
        (ends_of_not_isNumeric (by decide : isNumeric ']' = false) rest)
      rw [stringifyElements, List.append_assoc, List.singleton_append, readElements_last read,
        decodeElements]
      cases decode value <;> rfl
  | next :: elements =>
      rw [stringifyElements, List.length_append, List.length_cons] at enough
      obtain ⟨fuel, rfl⟩ := Nat.exists_eq_succ_of_ne_zero (by omega : fuel ≠ 0)
      have read := readValue_stringify value (by omega : (stringify value).length ≤ fuel)
        (ends_of_not_isNumeric (by decide : isNumeric ',' = false)
          (stringifyElements (next :: elements) ++ rest))
      rw [stringifyElements, List.append_assoc, List.cons_append, readElements_more read,
        decodeElements, readElements_stringify next elements (by omega)]
      cases decode value <;> cases decodeElements (next :: elements) <;> rfl

theorem readMembers_stringify (member : List UInt16 × Json (List UInt16))
    (members : List (List UInt16 × Json (List UInt16))) {fuel : Nat}
    (enough : (stringifyMembers (member :: members)).length ≤ fuel) (rest : List Char) :
    readMembers fuel (stringifyMembers (member :: members) ++ rest) =
      (decodeMembers (member :: members)).map fun members => (members, rest) := by
  match member, members with
  | (key, value), [] =>
      rw [stringifyMembers, List.length_append, List.length_cons, List.length_append,
        List.length_singleton] at enough
      obtain ⟨fuel, rfl⟩ := Nat.exists_eq_succ_of_ne_zero (by omega : fuel ≠ 0)
      have read := readValue_stringify value (by omega : (stringify value).length ≤ fuel)
        (ends_of_not_isNumeric (by decide : isNumeric '}' = false) rest)
      have named := readQuoted_quote key (':' :: (stringify value ++ '}' :: rest))
      rw [stringifyMembers, List.append_assoc, List.cons_append, List.append_assoc,
        List.singleton_append, readMembers_last named read, decodeMembers]
      cases Utf16.decode key <;> cases decode value <;> rfl
  | (key, value), next :: members =>
      rw [stringifyMembers, List.length_append, List.length_cons, List.length_append,
        List.length_cons] at enough
      obtain ⟨fuel, rfl⟩ := Nat.exists_eq_succ_of_ne_zero (by omega : fuel ≠ 0)
      have read := readValue_stringify value (by omega : (stringify value).length ≤ fuel)
        (ends_of_not_isNumeric (by decide : isNumeric ',' = false)
          (stringifyMembers (next :: members) ++ rest))
      have named := readQuoted_quote key
        (':' :: (stringify value ++ ',' :: (stringifyMembers (next :: members) ++ rest)))
      rw [stringifyMembers, List.append_assoc, List.cons_append, List.append_assoc,
        List.cons_append, readMembers_more named read, decodeMembers,
        readMembers_stringify next members (by omega)]
      cases Utf16.decode key <;> cases decode value <;>
        cases decodeMembers (next :: members) <;> rfl

end

/-- What was written is read as the same value, with its strings decoded. -/
theorem parse_stringify (value : Json (List UInt16)) : parse (stringify value) = decode value := by
  have read := @readValue_stringify value _ (Nat.le_succ _) [] nofun
  rw [List.append_nil] at read
  rw [parse, read]
  cases decode value <;> rfl

/-! ### Natural numbers -/

namespace Numeral

theorem head_toDigits {number : Nat} (positive : 0 < number) :
    (Nat.toDigits 10 number).head? ≠ some '0' := by
  induction number using Nat.strongRecOn with
  | ind number ih =>
      by_cases small : number < 10
      · have digit : ∀ digit < 10, 0 < digit → some (Nat.digitChar digit) ≠ some '0' := by decide
        rw [Nat.toDigits_of_lt_base small, List.head?_singleton]
        exact digit number small positive
      · have first := ih (number / 10) (by omega) (by omega)
        rw [Nat.toDigits_of_base_le (by decide) (by omega), List.head?_append]
        cases head : (Nat.toDigits 10 (number / 10)).head? with
        | none => exact absurd (List.head?_eq_none_iff.mp head) Nat.toDigits_ne_nil
        | some char => rwa [head] at first

/-- The digits of a number are a number. -/
theorem isNumeral_toDigits (number : Nat) : isNumeral (Nat.toDigits 10 number) = true := by
  have digits : ∀ char ∈ Nat.toDigits 10 number, char.isDigit = true :=
    fun _ => Nat.isDigit_of_mem_toDigits (by decide) (by decide)
  rcases Nat.eq_zero_or_pos number with rfl | positive
  · decide
  · have head := head_toDigits positive
    obtain ⟨first, more, own⟩ := List.exists_cons_of_ne_nil
      (Nat.toDigits_ne_nil : Nat.toDigits 10 number ≠ [])
    rw [own] at digits head ⊢
    have plain : unsigned (first :: more) = first :: more := by
      unfold unsigned
      split
      · next same =>
          cases same
          exact absurd (digits '-' List.mem_cons_self) (by decide)
      · rfl
    have all : (first :: more).takeWhile Char.isDigit = first :: more :=
      List.takeWhile_eq_self_iff.mpr digits
    have none : (first :: more).dropWhile Char.isDigit = [] :=
      List.dropWhile_eq_nil_iff.mpr digits
    have nonzero : (first != '0') = true := by
      rw [bne_iff_ne]
      rintro rfl
      exact head rfl
    simp only [isNumeral, plain, all, none, nonzero, Bool.true_or, Bool.true_and]
    rfl

/-- How a natural number is written. -/
def ofNat (number : Nat) : Numeral :=
  ⟨Nat.toDigits 10 number, isNumeral_toDigits number⟩

/-- The natural number that is written, with neither sign nor fraction. -/
def toNat? (numeral : Numeral) : Option Nat :=
  if numeral.text.all Char.isDigit then some (Nat.ofDigitChars 10 numeral.text 0) else none

@[simp]
theorem toNat?_ofNat (number : Nat) : (ofNat number).toNat? = some number := by
  have digits : (Nat.toDigits 10 number).all Char.isDigit = true :=
    List.all_eq_true.mpr fun _ => Nat.isDigit_of_mem_toDigits (by decide) (by decide)
  rw [toNat?, ofNat, if_pos digits, Nat.ofDigitChars_toDigits (by decide) (by decide)]

end Numeral

end Json
